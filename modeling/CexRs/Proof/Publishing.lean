import CexRs.Lib.Fold
import CexRs.Proof.Recovery

/-!
# What is published

The live loop publishes the events of each entry it dispatches, and the replay publishes nothing. So an
entry that the live loop has not reached when the process is started is dispatched by the replay, and
its events never appear. As long as every start finds the whole log dispatched, the executions stream is
that of a run that was never interrupted.
-/

namespace CexRs

open FixedWidth Log

/-- The events that the ledger is made of; the others report the depth of a book. -/
def ExecutionEvent.isLedger : ExecutionEvent → Bool
  | .depthUpdated .. => false
  | _ => true

section Published

variable (cfg : Config)

/-- The executions stream has the ledger events of a crash-free live run over the log, in the order of
the log, and no others. -/
def Recorded (sys : System cfg.codec.Json) : Prop :=
  ∃ s outputs, dispatchRecords cfg (.new cfg.fees) sys.wal = .ok (s, outputs) ∧
    sys.executions.filter ExecutionEvent.isLedger
      = (executions outputs).filter ExecutionEvent.isLedger

/-- A start of the process finds every entry of the log dispatched by the live loop, and its `XRANGE`
succeeds. -/
def CaughtUp (sys : System cfg.codec.Json) : SystemAction → Prop
  | .start _ replays => sys.process = none → replays = true ∧ sys.live = sys.wal
  | _ => True

abbrev StartsCaughtUp : System cfg.codec.Json → List SystemAction → Prop :=
  Fold.EachMeets (System.step cfg) (CaughtUp cfg)

/-- The live loop has dispatched a first part of the log, its events are published, and a running
process is behind it. -/
structure Published (sys : System cfg.codec.Json) : Prop where
  published : ∃ rest s outputs, sys.wal = sys.live ++ rest ∧
    dispatchRecords cfg (.new cfg.fees) sys.live = .ok (s, outputs) ∧
    sys.executions = executions outputs
  position : ∀ p, sys.process = some p → p.lastId = Log.lastId .zero sys.live

variable {cfg} {sys : System cfg.codec.Json}

theorem published_init : Published cfg (.init cfg.codec.Json) :=
  ⟨⟨[], .new cfg.fees, [], rfl, rfl, rfl⟩, fun _ heq => by cases heq⟩

theorem Published.next (h : Published cfg sys) (hsound : Sound cfg sys) (answers : LiveAnswers)
    {p : Process} {record : StreamId × Record} {pending : Wal} (hp : sys.process = some p)
    (hpending : p.pending = record :: pending) :
    Published cfg (liveRecord cfg sys answers p record pending) := by
  obtain ⟨front, back, outputs, hwal, hlast, hdispatch, hbatch⟩ := hsound.process p hp
  obtain ⟨rest, s, _, hlive, hdispatched, hexecutions⟩ := h.published
  -- the position of the process tells that what it stands behind is what was dispatched live
  have hordered := hsound.ordered
  rw [hwal] at hordered
  obtain ⟨rfl, rfl⟩ := eq_of_lastId_eq hordered (hwal.symm.trans hlive)
    (hlast.symm.trans (h.position p hp))
  rw [hdispatch] at hdispatched
  cases hdispatched
  rw [hpending] at hbatch
  obtain ⟨later, rfl⟩ := hbatch
  have hreset : ¬ record.2.Resets := hsound.resetFree record (by simp [hwal])
  rcases liveRecord_cases answers p hreset pending with
    hnone | ⟨s', outputs', n, rows, hrecord, _, hnext⟩
  · rw [hnone]
    exact ⟨h.published, fun _ heq => by cases heq⟩
  · rw [hnext]
    refine ⟨⟨pending ++ later, s', outputs ++ outputs', ?_, ?_, ?_⟩, ?_⟩
    · simpa using hwal
    · exact dispatchRecords_concat cfg hdispatch hrecord
    · simp [hexecutions, executions]
    · intro p' hp'
      cases hp'
      simp

theorem Published.step (h : Published cfg sys) (hsound : Sound cfg sys)
    (hcodec : ∀ s, cfg.codec.fromValue (cfg.codec.toValue s) = some s) {action : SystemAction}
    (hstart : CaughtUp cfg sys action) : Published cfg (sys.step cfg action) := by
  cases action with
  | append id record =>
      simp only [System.step]
      split
      · obtain ⟨rest, s, outputs, hlive, hdispatched, hexecutions⟩ := h.published
        refine ⟨⟨rest ++ [(id, record)], s, outputs, ?_, hdispatched, hexecutions⟩, h.position⟩
        rw [hlive, List.append_assoc]
      · exact h
  | start loads replays =>
      simp only [System.step]
      cases hprocess : sys.process with
      | none =>
          obtain ⟨rfl, hall⟩ := hstart hprocess
          refine ⟨h.published, ?_⟩
          intro p hp
          rw [hsound.aligned.start hcodec] at hp
          cases hdispatch : dispatchRecords cfg (.new cfg.fees) sys.wal with
          | error f =>
              rw [hdispatch] at hp
              cases hp
          | ok r =>
              rw [hdispatch] at hp
              cases hp
              rw [hall]
      | some p => exact h
  | read count =>
      simp only [System.step]
      split
      · next s lastId n hprocess =>
        refine ⟨h.published, ?_⟩
        intro p' hp'
        cases hp'
        exact h.position ⟨s, lastId, n, []⟩ hprocess
      · exact h
  | next answers =>
      simp only [System.step]
      split
      · next s lastId n record pending hprocess => exact h.next hsound answers hprocess rfl
      · exact h
  | crash => exact ⟨h.published, fun _ heq => by cases heq⟩

theorem Published.run (h : Published cfg sys) (hsound : Sound cfg sys)
    (hcodec : ∀ s, cfg.codec.fromValue (cfg.codec.toValue s) = some s) {actions : List SystemAction}
    (hreset : ∀ id record, SystemAction.append id record ∈ actions → ¬ record.Resets)
    (hstarts : StartsCaughtUp cfg sys actions) : Published cfg (runSystem cfg sys actions) := by
  have hkeeps : ∀ sys, Published cfg sys ∧ Sound cfg sys → ∀ action ∈ actions, CaughtUp cfg sys action →
      Published cfg (sys.step cfg action) ∧ Sound cfg (sys.step cfg action) := by
    intro sys hsys action hmem hstart
    refine ⟨hsys.1.step hsys.2 hcodec hstart, hsys.2.step hcodec ?_⟩
    rintro id record rfl
    exact hreset id record hmem
  exact (Fold.EachMeets.foldl hstarts ⟨h, hsound⟩ hkeeps).1

/-- **Publishing.** In every run over a log without resets in which each start of the process finds the
whole log dispatched live, whatever else is appended, read, saved or lost: once the process has caught
up with the log, the executions stream has the events of one crash-free live run over it, none missing
and none repeated. -/
theorem runSystem_recorded (cfg : Config)
    (hcodec : ∀ s, cfg.codec.fromValue (cfg.codec.toValue s) = some s) (actions : List SystemAction)
    (hreset : ∀ id record, SystemAction.append id record ∈ actions → ¬ record.Resets)
    (hstarts : StartsCaughtUp cfg (.init cfg.codec.Json) actions) (p : Process)
    (hp : (runSystem cfg (.init cfg.codec.Json) actions).process = some p)
    (hcaught : p.lastId = Log.lastId .zero (runSystem cfg (.init cfg.codec.Json) actions).wal) :
    Recorded cfg (runSystem cfg (.init cfg.codec.Json) actions) := by
  have hsound : Sound cfg (runSystem cfg (.init cfg.codec.Json) actions) :=
    sound_init.run hcodec hreset
  have hpublished := published_init.run sound_init hcodec hreset hstarts
  obtain ⟨rest, s, outputs, hlive, hdispatched, hexecutions⟩ := hpublished.published
  have hordered := hsound.ordered
  rw [hlive] at hordered
  have hall := (eq_of_lastId_eq hordered (hlive.symm.trans (List.append_nil _).symm)
    ((hpublished.position p hp).symm.trans hcaught)).1
  rw [hall] at hdispatched
  exact ⟨s, outputs, hdispatched, by rw [hexecutions]⟩

end Published

/-! ### A restart that loses events -/

instance (cfg : Config) (sys : System cfg.codec.Json) (action : SystemAction) :
    Decidable (CaughtUp cfg sys action) :=
  match action with
  | .start .. => inferInstanceAs (Decidable (_ → _))
  | .append .. | .read .. | .next .. | .crash => isTrue trivial

/-- Both onramps are dispatched live, with a crash once the process has caught up. -/
def restartCaughtUp : List SystemAction :=
  let answers : LiveAnswers := ⟨true, true, true, true⟩
  [.start true true, .append (toLex (1, 0)) (onrampRecord 1), .read 5, .next answers, .crash,
    .start true true, .append (toLex (2, 0)) (onrampRecord 2), .read 5, .next answers]

theorem runSystem_recorded_caughtUp :
    Recorded onrampConfig (runSystem onrampConfig (.init _) restartCaughtUp) := by
  have hprocess : ((runSystem onrampConfig (.init _) restartCaughtUp).process.map Process.lastId)
      = some (Log.lastId .zero (runSystem onrampConfig (.init _) restartCaughtUp).wal) := by
    decide +kernel
  obtain ⟨p, hp, hcaught⟩ := Option.map_eq_some_iff.mp hprocess
  refine runSystem_recorded onrampConfig (fun _ => rfl) restartCaughtUp ?_ (by decide +kernel) p hp
    hcaught
  rintro id record h ⟨hchannel, _⟩
  simp only [restartCaughtUp, List.mem_cons, reduceCtorEq, SystemAction.append.injEq,
    List.not_mem_nil, or_false, false_or] at h
  rcases h with ⟨_, rfl⟩ | ⟨_, rfl⟩ <;> revert hchannel <;> decide

/-- The process dies with an onramp in its batch, and another is appended while it is down. -/
def restart : List SystemAction :=
  [.start true true, .append (toLex (1, 0)) (onrampRecord 1), .append (toLex (1, 1)) ⟨none, none⟩,
    .read 5, .crash, .append (toLex (2, 0)) (onrampRecord 2)]

/-- The two onramps that the live loop has not reached when the process is started again are credited,
and never published. -/
theorem runSystem_loses_onramps :
    let sys := runSystem onrampConfig (.init _) (restart ++ [.start true true])
    (sys.process.map fun p => (p.lastId, (p.state.usd 1).available, (p.state.usd 2).available))
        = some (Log.lastId .zero sys.wal, 100, 100) ∧
      sys.executions = [] ∧ ¬ Recorded onrampConfig sys := by
  intro sys
  have hexecutions : sys.executions = [] := by decide +kernel
  refine ⟨by decide +kernel, hexecutions, ?_⟩
  rintro ⟨s, outputs, hdispatch, hledger⟩
  obtain ⟨r, hr, htest⟩ := exists_of_returns
    (dispatchRecords onrampConfig (.new onrampConfig.fees) sys.wal)
    (fun r => (executions r.2).filter ExecutionEvent.isLedger ≠ []) (by decide +kernel)
  rw [hdispatch] at hr
  cases hr
  rw [hexecutions] at hledger
  exact of_decide_eq_true htest hledger.symm

end CexRs
