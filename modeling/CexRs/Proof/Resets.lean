import CexRs.Lib.Fold
import CexRs.Proof.Recovery
import CexRs.Proof.Representation

/-!
# Resets

When the live loop has dispatched a reset it truncates the snapshots, deletes the stream and goes back to
its beginning. A reset that is the last entry of the stream leaves a log that nothing is missing from: what
was deleted ends in the empty engine. A later entry is deleted with it. If it was in the batch of the reset
it is still dispatched, and the next start does not know of it; if it was not, it is never dispatched.
-/

namespace CexRs

open FixedWidth Log EngineState

/-! ### What a reset leaves -/

section Reset

variable {s s' : EngineState}

/-- A reset keeps the names of the books and the fees, and nothing else. -/
theorem reset_eq_reset (hsymbol : ∀ asset, (s'.book asset).symbol = (s.book asset).symbol)
    (hfees : s'.feeSchedule = s.feeSchedule) : s'.reset = s.reset := by
  have hsol : s'.solOrderbook.symbol = s.solOrderbook.symbol := hsymbol .sol
  have hbtc : s'.btcOrderbook.symbol = s.btcOrderbook.symbol := hsymbol .btc
  have heth : s'.ethOrderbook.symbol = s.ethOrderbook.symbol := hsymbol .eth
  simp [reset, Orderbook.reset, hsol, hbtc, heth, hfees]

theorem Executed.symbol {asset a : Asset} {taker : Taker} {past : Nat → Bool} {qty : Nat}
    {fs : List (Order × Nat)} {m : Matching} {resting : Option Order}
    (h : Executed s s' asset taker past qty fs m resting) :
    (s'.book a).symbol = (s.book a).symbol := by
  by_cases ha : a = asset
  · subst ha
    have hmatched : m.book.symbol = (s.book a).symbol := h.took.fills.symbol
    rw [h.book_self, ← hmatched]
    cases resting with
    | none => rfl
    | some o => simp [Orderbook.restAll, Orderbook.rest]
  · rw [h.book_other a ha]

/-- No message changes what a reset leads to. -/
theorem VenueStep.reset_eq {A : Arith} {builtins : Builtins} {msg : Msg}
    {events : List ExecutionEvent} (h : VenueStep A builtins s msg s' events) : s'.reset = s.reset := by
  cases h with
  | idle h => exact reset_eq_reset (fun a => by rw [h.book]) h.feeSchedule
  | order h =>
      have hexec := h.filled.executed
      exact reset_eq_reset (fun a => hexec.symbol) hexec.feeSchedule
  | @cancel msg s' asset o bids asks hget huser h =>
      refine reset_eq_reset (fun a => ?_) (h.feeSchedule.trans (feeSchedule_setBook ..))
      rw [h.book]
      by_cases ha : a = asset
      · subst ha
        rw [book_setBook_self]
        simp [Orderbook.remove]
      · rw [book_setBook_of_ne _ _ _ ha]
  | reset => rfl

variable {cfg : Config}

theorem dispatchRecord_reset_eq (hv : s.Valid) {record : Record} {outputs : List Output}
    (h : dispatchRecord cfg s record = .ok (s', outputs)) : s'.Valid ∧ s'.reset = s.reset := by
  unfold dispatchRecord at h
  split at h
  · unfold dispatchEvent at h
    split at h
    · cases h
      exact ⟨hv, rfl⟩
    · next msg _ =>
      have hstep := (handle_venue cfg.arith cfg.builtins s hv.book msg).of_ok h
      exact ⟨hstep.valid hv, hstep.reset_eq⟩
  · cases h
    exact ⟨hv, rfl⟩

theorem dispatchRecords_reset_eq (hv : s.Valid) {l : Wal} {outputs : List Output}
    (h : dispatchRecords cfg s l = .ok (s', outputs)) : s'.reset = s.reset := by
  induction l generalizing s outputs with
  | nil =>
      cases h
      rfl
  | cons record l ih =>
      unfold dispatchRecords at h
      obtain ⟨⟨s₁, first⟩, hfirst, h⟩ := bind_ok h
      obtain ⟨⟨s₂, later⟩, hlater, h⟩ := bind_ok h
      cases h
      obtain ⟨hv₁, hreset⟩ := dispatchRecord_reset_eq hv hfirst
      exact (ih hv₁ hlater).trans hreset

/-- After whatever the engine has dispatched, a reset leads back to where it started. -/
theorem reset_eq_new {l : Wal} {outputs : List Output}
    (h : dispatchRecords cfg (.new cfg.fees) l = .ok (s, outputs)) : s.reset = .new cfg.fees :=
  dispatchRecords_reset_eq (valid_new cfg.fees) h

end Reset

/-! ### Histories -/

section History

variable (cfg : Config)

def appendedBy (sys : System cfg.codec.Json) : SystemAction → Wal
  | .append id record => if Log.lastId .zero sys.wal < id then [(id, record)] else []
  | _ => []

/-- All that a run appends to the stream, in order. The stream itself forgets it on a reset. -/
def appended : System cfg.codec.Json → List SystemAction → Wal
  | _, [] => []
  | sys, action :: actions => appendedBy cfg sys action ++ appended (sys.step cfg action) actions

def taken (sys : System cfg.codec.Json) : SystemAction → Option ((StreamId × Record) × LiveAnswers)
  | .next answers => sys.process.bind fun p => p.pending.head?.map fun record => (record, answers)
  | _ => none

instance (record : Record) : Decidable record.Resets :=
  inferInstanceAs (Decidable (_ ∧ _))

/-- When the live loop takes a reset, the stream has no later entry, the payload of the reset parses, and
the stream is deleted only if the snapshots are. -/
def ResetsLast (sys : System cfg.codec.Json) (action : SystemAction) : Prop :=
  ∀ next ∈ taken cfg sys action, next.1.2.Resets → Log.since next.1.1 sys.wal = [] ∧
    (∀ data ∈ next.1.2.data, (cfg.decoder.reset data).isSome) ∧
    (next.2.deletes = true → next.2.truncates = true)

instance (sys : System cfg.codec.Json) (action : SystemAction) : Decidable (ResetsLast cfg sys action) :=
  inferInstanceAs (Decidable (∀ next ∈ taken cfg sys action, _))

abbrev AllResetsLast : System cfg.codec.Json → List SystemAction → Prop :=
  Fold.EachMeets (System.step cfg) (ResetsLast cfg)

/-- Nothing of what was appended is lost or repeated. A running process has dispatched a first part of it,
each entry once, and works on and reads next what follows; and when nothing is left for it to dispatch, a
start after a crash has its state. -/
structure LosesNothing (sys : System cfg.codec.Json) (history : Wal) : Prop where
  dispatched : ∀ p, sys.process = some p → ∃ handled rest outputs, history = handled ++ rest ∧
    dispatchRecords cfg (.new cfg.fees) handled = .ok (p.state, outputs) ∧
    p.pending <+: rest ∧ Log.since p.lastId sys.wal = rest
  recovered : ∀ p, sys.process = some p → Log.since p.lastId sys.wal = [] → ∀ loads,
    ∃ q, startProcess cfg (sys.step cfg .crash) loads true = some q ∧ q.state = p.state

/-- The log is what was appended, less a first part after which the engine was empty. -/
def Retained (sys : System cfg.codec.Json) (history : Wal) : Prop :=
  ∃ deleted outputs, history = deleted ++ sys.wal ∧
    dispatchRecords cfg (.new cfg.fees) deleted = .ok (.new cfg.fees, outputs)

end History

section Steps

variable {cfg : Config} {sys : System cfg.codec.Json} {history : Wal}

/-- What was deleted and what is left are dispatched like what is left. -/
theorem dispatch_deleted {deleted l : Wal} {s : EngineState} {outputs outputs' : List Output}
    (hdeleted : dispatchRecords cfg (.new cfg.fees) deleted = .ok (.new cfg.fees, outputs))
    (hl : dispatchRecords cfg (.new cfg.fees) l = .ok (s, outputs')) :
    dispatchRecords cfg (.new cfg.fees) (deleted ++ l) = .ok (s, outputs ++ outputs') := by
  rw [dispatchRecords_append, hdeleted, ok_bind, hl]
  rfl

/-- A reset whose payload parses empties the engine. -/
theorem dispatchRecord_resets {s : EngineState} {record : Record} (hreset : record.Resets)
    (hparses : ∀ data, record.data = some data → (cfg.decoder.reset data).isSome) :
    ∃ data outputs, record.data = some data ∧
      dispatchEvent cfg s "reset" data = .ok (s.reset, outputs) ∧
      dispatchRecord cfg s record = .ok (s.reset, outputs) := by
  obtain ⟨data, hdata⟩ := Option.isSome_iff_exists.mp hreset.2
  obtain ⟨msg, hmsg⟩ := Option.isSome_iff_exists.mp (hparses data hdata)
  have hevent : dispatchEvent cfg s "reset" data
      = .ok (s.reset, [replyTo msg.queueId (.generic msg.identifier "Reset successful")]) := by
    simp [dispatchEvent, Decoder.decode, hmsg, handle, handleReset, pure, Except.pure]
  refine ⟨data, _, hdata, hevent, ?_⟩
  rw [← hevent]
  simp [dispatchRecord, hreset.1, hdata]

/-- An entry with nothing after it in the log is the end of the log, and of the batch. -/
theorem InPlace.last {wal : Wal} {p : Process} (h : InPlace cfg wal p) (hordered : Ordered .zero wal)
    {record : StreamId × Record} {pending : Wal} (hpending : p.pending = record :: pending)
    (hlast : Log.since record.1 wal = []) :
    ∃ front outputs, wal = front ++ [record] ∧ pending = [] ∧
      dispatchRecords cfg (.new cfg.fees) front = .ok (p.state, outputs) := by
  obtain ⟨front, back, outputs, hwal, _, hdispatch, rest, hback⟩ := h
  rw [hpending] at hback
  have hsplit : wal = (front ++ [record]) ++ (pending ++ rest) := by
    rw [hwal, ← hback]
    simp
  have hafter : pending ++ rest = [] := by
    have hposition : Log.lastId .zero (front ++ [record]) = record.1 := lastId_concat record
    rw [hsplit] at hordered hlast
    rwa [← hposition, since_lastId hordered] at hlast
  refine ⟨front, outputs, ?_, (List.append_eq_nil_iff.mp hafter).1, hdispatch⟩
  rw [hsplit, hafter, List.append_nil]

theorem ResetsLast.next {answers : LiveAnswers} {p : Process} {record : StreamId × Record}
    {pending : Wal} (h : ResetsLast cfg sys (.next answers)) (hp : sys.process = some p)
    (hpending : p.pending = record :: pending) (hreset : record.2.Resets) :
    Log.since record.1 sys.wal = [] ∧
      (∀ data, record.2.data = some data → (cfg.decoder.reset data).isSome) ∧
      (answers.deletes = true → answers.truncates = true) :=
  h (record, answers) (by simp [taken, hp, hpending]) hreset

/-- A reset at the end of the log leaves nothing behind, or the log as it was. -/
theorem Aligned.reset (h : Aligned cfg sys) (hretained : Retained cfg sys history)
    {answers : LiveAnswers} {p : Process} {record : StreamId × Record} {pending : Wal}
    (hp : sys.process = some p) (hpending : p.pending = record :: pending) (hreset : record.2.Resets)
    (hlast : Log.since record.1 sys.wal = [])
    (hparses : ∀ data, record.2.data = some data → (cfg.decoder.reset data).isSome)
    (htruncates : answers.deletes = true → answers.truncates = true) :
    Aligned cfg (liveRecord cfg sys answers p record pending) ∧
      Retained cfg (liveRecord cfg sys answers p record pending) history := by
  obtain ⟨front, outputs, hwal, rfl, hdispatch⟩ := (h.process p hp).last h.ordered hpending hlast
  obtain ⟨data, outputs', hdata, hevent, hrecord⟩ := dispatchRecord_resets (s := p.state) hreset hparses
  have hempty : p.state.reset = .new cfg.fees := reset_eq_new hdispatch
  rw [hempty] at hevent hrecord
  have hlive : liveRecord cfg sys answers p record [] = { sys with
      executions := if answers.deletes then [] else sys.executions ++ executions outputs'
      live := sys.live ++ [record]
      snapshots := if answers.truncates then [] else sys.snapshots
      wal := if answers.deletes then [] else sys.wal
      process := some ⟨.new cfg.fees, .zero, 0, []⟩ } := by
    simp [liveRecord, hreset.1, hdata, hevent]
  have hstart : ∀ wal, InPlace cfg wal ⟨.new cfg.fees, .zero, 0, []⟩ :=
    fun wal => ⟨[], wal, [], rfl, rfl, rfl, List.nil_prefix⟩
  have hprocess : ∀ wal q, some (⟨.new cfg.fees, .zero, 0, []⟩ : Process) = some q →
      InPlace cfg wal q := by
    intro wal q hq
    cases hq
    exact hstart wal
  rw [hlive]
  cases hdeletes : answers.deletes with
  | true =>
      simp only [htruncates hdeletes, if_true]
      refine ⟨⟨⟨List.Pairwise.nil, by simp⟩, by simp, hprocess []⟩, ?_⟩
      obtain ⟨deleted, outputs₀, hhistory, hdeleted⟩ := hretained
      have hall := dispatch_deleted hdeleted (dispatchRecords_concat cfg hdispatch hrecord)
      exact ⟨history, _, (List.append_nil _).symm, by rw [hhistory, hwal]; exact hall⟩
  | false =>
      simp only [Bool.false_eq_true, if_false]
      refine ⟨⟨h.ordered, ?_, hprocess sys.wal⟩, hretained⟩
      intro row hrow
      apply h.snapshots row
      cases htruncated : answers.truncates with
      | true => simp [htruncated] at hrow
      | false => simpa [htruncated] using hrow

theorem Aligned.step_retained (h : Aligned cfg sys) (hretained : Retained cfg sys history)
    (hcodec : ∀ s, cfg.codec.fromValue (cfg.codec.toValue s) = some s) {action : SystemAction}
    (hlast : ResetsLast cfg sys action) :
    Aligned cfg (sys.step cfg action) ∧
      Retained cfg (sys.step cfg action) (history ++ appendedBy cfg sys action) := by
  constructor
  · apply h.step hcodec
    rintro answers p record pending rfl hp hpending
    by_cases hreset : record.2.Resets
    · obtain ⟨hend, hparses, htruncates⟩ := hlast.next hp hpending hreset
      exact (h.reset hretained hp hpending hreset hend hparses htruncates).1
    · exact h.next answers hp hpending hreset
  · obtain ⟨deleted, outputs, hhistory, hdeleted⟩ := hretained
    cases action with
    | append id record =>
        refine ⟨deleted, outputs, ?_, hdeleted⟩
        simp only [System.step, appendedBy]
        split
        · rw [hhistory, List.append_assoc]
        · rw [hhistory, List.append_nil]
    | start loads replays =>
        refine ⟨deleted, outputs, ?_, hdeleted⟩
        simp only [System.step, appendedBy, List.append_nil]
        split
        · exact hhistory
        · exact hhistory
    | read count =>
        refine ⟨deleted, outputs, ?_, hdeleted⟩
        simp only [System.step, appendedBy, List.append_nil]
        split
        · exact hhistory
        · exact hhistory
    | next answers =>
        simp only [System.step, appendedBy, List.append_nil]
        split
        · next s lastId n record pending hprocess =>
          by_cases hreset : record.2.Resets
          · obtain ⟨hend, hparses, htruncates⟩ := hlast.next hprocess rfl hreset
            exact (h.reset ⟨deleted, outputs, hhistory, hdeleted⟩ hprocess rfl hreset hend hparses
              htruncates).2
          · refine ⟨deleted, outputs, ?_, hdeleted⟩
            rcases liveRecord_cases answers ⟨s, lastId, n, record :: pending⟩ hreset pending with
              hlive | ⟨_, _, _, _, _, _, hlive⟩
            · rw [hlive]
              exact hhistory
            · rw [hlive]
              exact hhistory
        · exact ⟨deleted, outputs, hhistory, hdeleted⟩
    | crash =>
        refine ⟨deleted, outputs, ?_, hdeleted⟩
        simp only [System.step, appendedBy, List.append_nil]
        exact hhistory

theorem Aligned.run_retained (h : Aligned cfg sys) (hretained : Retained cfg sys history)
    (hcodec : ∀ s, cfg.codec.fromValue (cfg.codec.toValue s) = some s) {actions : List SystemAction}
    (hlast : AllResetsLast cfg sys actions) :
    Aligned cfg (runSystem cfg sys actions) ∧
      Retained cfg (runSystem cfg sys actions) (history ++ appended cfg sys actions) := by
  induction actions generalizing sys history with
  | nil =>
      rw [appended, List.append_nil]
      exact ⟨h, hretained⟩
  | cons action actions ih =>
      obtain ⟨haligned, hkept⟩ := h.step_retained hretained hcodec hlast.1
      have hrun := ih haligned hkept hlast.2
      rwa [List.append_assoc] at hrun

theorem Aligned.losesNothing (h : Aligned cfg sys) (hretained : Retained cfg sys history)
    (hcodec : ∀ s, cfg.codec.fromValue (cfg.codec.toValue s) = some s) :
    LosesNothing cfg sys history := by
  obtain ⟨deleted, outputs, hhistory, hdeleted⟩ := hretained
  have hsince : ∀ {front back : Wal}, sys.wal = front ++ back →
      Log.since (Log.lastId .zero front) sys.wal = back := by
    intro front back hwal
    have hordered := h.ordered
    rw [hwal] at hordered
    rw [hwal, since_lastId hordered]
  constructor
  · intro p hp
    obtain ⟨front, back, outputs', hwal, hlast, hdispatch, hpending⟩ := h.process p hp
    refine ⟨deleted ++ front, back, _, ?_, dispatch_deleted hdeleted hdispatch, hpending, ?_⟩
    · rw [hhistory, hwal, List.append_assoc]
    · rw [hlast, hsince hwal]
  · intro p hp hdone loads
    obtain ⟨front, back, outputs', hwal, hlast, hdispatch, _⟩ := h.process p hp
    rw [hlast, hsince hwal] at hdone
    rw [hdone, List.append_nil] at hwal
    have hcrashed : Aligned cfg (sys.step cfg .crash) := h.step hcodec (by simp)
    have hall : dispatchRecords cfg (.new cfg.fees) (sys.step cfg .crash).wal
        = .ok (p.state, outputs') := by
      change dispatchRecords cfg (.new cfg.fees) sys.wal = _
      rw [hwal, hdispatch]
    rw [hcrashed.start hcodec, hall]
    exact ⟨_, rfl, rfl⟩

end Steps

/-- **Resets.** In every run of appends, reads, snapshots, crashes and starts in which the live loop takes
a reset only as the last entry of the stream, with a payload that parses, and deletes the stream only with
the snapshots: in every state reached, the running process has dispatched a first part of all that was
appended, each entry once, and has the rest before it; and once nothing is left, a start after a crash has
the same state. -/
theorem runSystem_loses_nothing (cfg : Config)
    (hcodec : ∀ s, cfg.codec.fromValue (cfg.codec.toValue s) = some s) (actions : List SystemAction)
    (hlast : AllResetsLast cfg (.init cfg.codec.Json) actions) :
    LosesNothing cfg (runSystem cfg (.init cfg.codec.Json) actions)
      (appended cfg (.init cfg.codec.Json) actions) := by
  have hretained : Retained cfg (.init cfg.codec.Json) [] := ⟨[], [], rfl, rfl⟩
  obtain ⟨haligned, hkept⟩ := sound_init.aligned.run_retained hretained hcodec hlast
  exact haligned.losesNothing hkept hcodec

/-! ### A reset with an onramp behind it -/

def resetData : String := "\x7b\"queue_id\":\"q\",\"identifier\":\"r\"\x7d"

def resetRecord : Record := ⟨some "reset", some resetData⟩

def resetConfig : Config :=
  { onrampConfig with
    decoder := { onrampConfig.decoder with
      reset := fun data => if data = resetData then some ⟨"q", "r"⟩ else none } }

/-- The reset is taken before the onramp of user 2 is appended. -/
def quietReset : List SystemAction :=
  [.start true true, .append (toLex (1, 0)) (onrampRecord 1), .append (toLex (2, 0)) resetRecord,
    .read 5, .next succeeding, .next succeeding, .append (toLex (3, 0)) (onrampRecord 2), .read 5,
    .next succeeding]

/-- The onramp is in the batch of the reset. -/
def resetInBatch : List SystemAction :=
  [.start true true, .append (toLex (1, 0)) resetRecord, .append (toLex (2, 0)) (onrampRecord 1),
    .read 5, .next succeeding, .next succeeding]

/-- The onramp is appended between the read of the reset and the deletion of the stream. -/
def resetAfterRead : List SystemAction :=
  [.start true true, .append (toLex (1, 0)) resetRecord, .read 5,
    .append (toLex (2, 0)) (onrampRecord 1), .next succeeding]

theorem runSystem_loses_nothing_quietReset :
    ∃ p, (runSystem resetConfig (.init _) quietReset).process = some p ∧
      (p.state.usd 1).available = 0 ∧ (p.state.usd 2).available = 100 ∧
      ∃ q, startProcess resetConfig ((runSystem resetConfig (.init _) quietReset).step resetConfig .crash)
        true true = some q ∧ q.state = p.state := by
  have hloses := runSystem_loses_nothing resetConfig (fun _ => rfl) quietReset (by decide +kernel)
  have htest : (runSystem resetConfig (.init _) quietReset).process.any (fun p =>
      decide ((p.state.usd 1).available = 0 ∧ (p.state.usd 2).available = 100 ∧
        Log.since p.lastId (runSystem resetConfig (.init _) quietReset).wal = [])) = true := by
    decide +kernel
  obtain ⟨p, hp, htest⟩ := (Option.any_eq_true _ _).mp htest
  obtain ⟨hfirst, hsecond, hdone⟩ := of_decide_eq_true htest
  exact ⟨p, hp, hfirst, hsecond, hloses.recovered p hp hdone true⟩

/-- An onramp behind a reset. In the batch of the reset it is dispatched, and no start after a crash has
it. Appended after the batch was read it is deleted before it is ever read. -/
theorem reset_loses_onramp :
    ¬ LosesNothing resetConfig (runSystem resetConfig (.init _) resetInBatch)
        (appended resetConfig (.init _) resetInBatch) ∧
      ¬ LosesNothing resetConfig (runSystem resetConfig (.init _) resetAfterRead)
        (appended resetConfig (.init _) resetAfterRead) := by
  constructor
  · intro h
    have htest : (runSystem resetConfig (.init _) resetInBatch).process.any (fun p =>
        decide ((p.state.usd 1).available = 100 ∧
          Log.since p.lastId (runSystem resetConfig (.init _) resetInBatch).wal = [])) = true := by
      decide +kernel
    obtain ⟨p, hp, htest⟩ := (Option.any_eq_true _ _).mp htest
    obtain ⟨hfunds, hdone⟩ := of_decide_eq_true htest
    obtain ⟨q, hq, hstate⟩ := h.recovered p hp hdone true
    have hrestarted : (startProcess resetConfig
        ((runSystem resetConfig (.init _) resetInBatch).step resetConfig .crash) true true).all
        (fun q => decide ((q.state.usd 1).available = 0)) = true := by
      decide +kernel
    rw [hq, Option.all_some, hstate, hfunds] at hrestarted
    cases hrestarted
  · intro h
    have htest : (runSystem resetConfig (.init _) resetAfterRead).process.any (fun p =>
        decide ((p.state.usd 1).available = 0 ∧
          Log.since p.lastId (runSystem resetConfig (.init _) resetAfterRead).wal = [])) = true := by
      decide +kernel
    obtain ⟨p, hp, htest⟩ := (Option.any_eq_true _ _).mp htest
    obtain ⟨hfunds, hdone⟩ := of_decide_eq_true htest
    obtain ⟨handled, rest, outputs, hhistory, hdispatch, _, hrest⟩ := h.dispatched p hp
    rw [hdone] at hrest
    rw [← hrest, List.append_nil] at hhistory
    have hall : returns (fun r => decide ((r.1.usd 1).available = 100))
        (dispatchRecords resetConfig (.new resetConfig.fees)
          (appended resetConfig (.init _) resetAfterRead)) = true := by
      decide +kernel
    rw [hhistory, hdispatch] at hall
    have hfunds' : (p.state.usd 1).available = 100 := of_decide_eq_true hall
    rw [hfunds] at hfunds'
    cases hfunds'

end CexRs
