import CexRs.Engine

/-!
# Recovery

Over a log without resets, whatever is appended, read, saved, lost or restarted: a snapshot is the state
after a first part of the log, stamped with the id of its last entry, and so is the state of a running
process. Starting from any of them, the replay makes up for the rest.
-/

namespace CexRs

open FixedWidth Log

def Record.Resets (record : Record) : Prop := record.channel = some "reset" ∧ record.data.isSome

/-! ### Dispatch of a log -/

section Dispatch

variable (cfg : Config)

theorem dispatchRecords_append (s : EngineState) (l l' : Wal) :
    dispatchRecords cfg s (l ++ l') = dispatchRecords cfg s l >>= fun r =>
      (dispatchRecords cfg r.1 l').map fun r' => (r'.1, r.2 ++ r'.2) := by
  induction l generalizing s with
  | nil =>
      change dispatchRecords cfg s l' = (dispatchRecords cfg s l').map _
      cases dispatchRecords cfg s l' with
      | error f => rfl
      | ok r => rfl
  | cons record l ih =>
      simp only [List.cons_append, dispatchRecords]
      cases dispatchRecord cfg s record.2 with
      | error f => rfl
      | ok r =>
          simp only [ok_bind, ih]
          cases hl : dispatchRecords cfg r.1 l with
          | error f => rfl
          | ok r' =>
              cases hl' : dispatchRecords cfg r'.1 l' with
              | error f => simp [hl', Except.map, bind, Except.bind, pure, Except.pure]
              | ok r'' => simp [hl', Except.map, bind, Except.bind, pure, Except.pure]

theorem dispatchRecords_concat {s s' s'' : EngineState} {l : Wal} {record : StreamId × Record}
    {outputs outputs' : List Output} (h : dispatchRecords cfg s l = .ok (s', outputs))
    (h' : dispatchRecord cfg s' record.2 = .ok (s'', outputs')) :
    dispatchRecords cfg s (l ++ [record]) = .ok (s'', outputs ++ outputs') := by
  rw [dispatchRecords_append, h, ok_bind]
  simp [dispatchRecords, h', Except.map, pure, Except.pure]

/-- The replay dispatches what it is given and ends at the last entry. -/
theorem replay_eq (s : EngineState) (l : Wal) (lastId : StreamId) :
    l.foldlM (fun (s, _) record => do
        let (s, _) ← dispatchRecord cfg s record.2
        return (s, record.1)) (s, lastId)
      = (dispatchRecords cfg s l).map fun r => (r.1, Log.lastId lastId l) := by
  induction l generalizing s lastId with
  | nil => rfl
  | cons record l ih =>
      rw [List.foldlM_cons, lastId_cons, dispatchRecords]
      cases hrecord : dispatchRecord cfg s record.2 with
      | error f => simp [hrecord, Except.map, bind, Except.bind]
      | ok r =>
          have hrest := ih r.1 record.1
          cases hl : dispatchRecords cfg r.1 l with
          | error f => simpa [hrecord, hl, Except.map, bind, Except.bind, pure, Except.pure] using hrest
          | ok r' => simpa [hrecord, hl, Except.map, bind, Except.bind, pure, Except.pure] using hrest

end Dispatch

/-! ### Positions -/

section Sound

variable (cfg : Config)

def Reached (wal : Wal) (lastId : StreamId) (s : EngineState) : Prop :=
  ∃ front back outputs, wal = front ++ back ∧ lastId = Log.lastId .zero front ∧
    dispatchRecords cfg (.new cfg.fees) front = .ok (s, outputs)

def InPlace (wal : Wal) (p : Process) : Prop :=
  ∃ front back outputs, wal = front ++ back ∧ p.lastId = Log.lastId .zero front ∧
    dispatchRecords cfg (.new cfg.fees) front = .ok (p.state, outputs) ∧ p.pending <+: back

structure Aligned (sys : System cfg.codec.Json) : Prop where
  ordered : Ordered .zero sys.wal
  snapshots : ∀ row ∈ sys.snapshots, row.1 ≠ .zero ∧
    ∃ s, row.2 = cfg.codec.toValue s ∧ Reached cfg sys.wal row.1 s
  process : ∀ p, sys.process = some p → InPlace cfg sys.wal p

structure Sound (sys : System cfg.codec.Json) : Prop where
  ordered : Ordered .zero sys.wal
  resetFree : ∀ e ∈ sys.wal, ¬ e.2.Resets
  snapshots : ∀ row ∈ sys.snapshots, row.1 ≠ .zero ∧
    ∃ s, row.2 = cfg.codec.toValue s ∧ Reached cfg sys.wal row.1 s
  process : ∀ p, sys.process = some p → InPlace cfg sys.wal p

theorem Sound.aligned {cfg : Config} {sys : System cfg.codec.Json} (h : Sound cfg sys) :
    Aligned cfg sys :=
  ⟨h.ordered, h.snapshots, h.process⟩

variable {cfg} {wal : Wal} {lastId : StreamId} {s : EngineState}

theorem Reached.append (h : Reached cfg wal lastId s) (l : Wal) : Reached cfg (wal ++ l) lastId s := by
  obtain ⟨front, back, outputs, rfl, hlast, hdispatch⟩ := h
  exact ⟨front, back ++ l, outputs, List.append_assoc .., hlast, hdispatch⟩

theorem InPlace.append {p : Process} (h : InPlace cfg wal p) (l : Wal) :
    InPlace cfg (wal ++ l) p := by
  obtain ⟨front, back, outputs, rfl, hlast, hdispatch, hpending⟩ := h
  exact ⟨front, back ++ l, outputs, List.append_assoc .., hlast, hdispatch,
    hpending.trans (List.prefix_append back l)⟩

theorem reached_new (wal : Wal) : Reached cfg wal .zero (.new cfg.fees) :=
  ⟨[], wal, [], rfl, rfl, rfl⟩

/-- From any position of the log the replay completes it. -/
theorem replay_of_reached (hordered : Ordered .zero wal) (h : Reached cfg wal lastId s)
    (hzero : lastId = .zero → s = .new cfg.fees) :
    replayEventsSince cfg s wal lastId
      = (dispatchRecords cfg (.new cfg.fees) wal).map fun r => (r.1, Log.lastId .zero wal) := by
  obtain ⟨front, back, outputs, rfl, hlast, hdispatch⟩ := h
  unfold replayEventsSince xrange
  split
  · next heq =>
    rw [hzero heq, heq, replay_eq]
  · rw [hlast, since_lastId hordered, replay_eq, dispatchRecords_append, hdispatch, ok_bind,
      ← lastId_append]
    cases dispatchRecords cfg s back with
    | error f => rfl
    | ok r => rfl

end Sound

/-! ### Steps -/

section Steps

variable {cfg : Config} {sys : System cfg.codec.Json}

/-- A start is at a position of the log, from a snapshot or from the beginning. -/
theorem Aligned.loaded (h : Aligned cfg sys)
    (hcodec : ∀ s, cfg.codec.fromValue (cfg.codec.toValue s) = some s) (loads : Bool) :
    ∃ s lastId, (loadLatestSnapshot cfg sys loads).elim (EngineState.new cfg.fees, StreamId.zero)
        (fun (id, s) => (s, id)) = (s, lastId) ∧
      Reached cfg sys.wal lastId s ∧ (lastId = .zero → s = .new cfg.fees) := by
  unfold loadLatestSnapshot
  cases loads with
  | false => exact ⟨_, _, rfl, reached_new _, fun _ => rfl⟩
  | true =>
      cases hhead : sys.snapshots.head? with
      | none => exact ⟨_, _, rfl, reached_new _, fun _ => rfl⟩
      | some row =>
          obtain ⟨hzero, s, hvalue, hreached⟩ := h.snapshots row (List.mem_of_mem_head? hhead)
          refine ⟨s, row.1, ?_, hreached, fun heq => absurd heq hzero⟩
          simp [hvalue, hcodec]

/-- **Replay.** A start whose replay goes through has dispatched the whole log, and a panic that the log
leads to ends it. -/
theorem Aligned.start (h : Aligned cfg sys)
    (hcodec : ∀ s, cfg.codec.fromValue (cfg.codec.toValue s) = some s) (loads : Bool) :
    startProcess cfg sys loads true =
      match dispatchRecords cfg (.new cfg.fees) sys.wal with
      | .ok (s, _) => some ⟨s, Log.lastId .zero sys.wal, 0, []⟩
      | .error _ => none := by
  obtain ⟨s, lastId, hloaded, hreached, hzero⟩ := h.loaded hcodec loads
  unfold startProcess
  rw [hloaded]
  simp only [if_true, replay_of_reached h.ordered hreached hzero]
  cases dispatchRecords cfg (.new cfg.fees) sys.wal with
  | error f => rfl
  | ok r => rfl

theorem Aligned.start_inPlace (h : Aligned cfg sys)
    (hcodec : ∀ s, cfg.codec.fromValue (cfg.codec.toValue s) = some s) {loads replays : Bool}
    {p : Process} (hp : startProcess cfg sys loads replays = some p) : InPlace cfg sys.wal p := by
  cases replays with
  | true =>
      rw [h.start hcodec] at hp
      cases hdispatch : dispatchRecords cfg (.new cfg.fees) sys.wal with
      | error f =>
          rw [hdispatch] at hp
          cases hp
      | ok r =>
          rw [hdispatch] at hp
          cases hp
          exact ⟨sys.wal, [], r.2, (List.append_nil _).symm, rfl, hdispatch, List.prefix_rfl⟩
  | false =>
      obtain ⟨s, lastId, hloaded, hreached, _⟩ := h.loaded hcodec loads
      unfold startProcess at hp
      rw [hloaded] at hp
      cases hp
      obtain ⟨front, back, outputs, hwal, hlast, hdispatch⟩ := hreached
      exact ⟨front, back, outputs, hwal, hlast, hdispatch, List.nil_prefix⟩

/-- The live loop has dispatched an entry: its events are published, the process is behind it, and at
most one snapshot is new, of this position. -/
def Handled (cfg : Config) (sys sys' : System cfg.codec.Json) (p : Process)
    (record : StreamId × Record) (pending : Wal) : Prop :=
  ∃ s outputs n rows, dispatchRecord cfg p.state record.2 = .ok (s, outputs) ∧
    (∀ row ∈ rows, row ∈ sys.snapshots ∨ row = (record.1, cfg.codec.toValue s)) ∧
    sys' = { sys with
      executions := sys.executions ++ executions outputs
      snapshots := rows
      process := some ⟨s, record.1, n, pending⟩
      live := sys.live ++ [record] }

/-- What the live loop does with an entry that is no reset. -/
theorem liveRecord_cases (answers : LiveAnswers) (p : Process) {record : StreamId × Record}
    (hreset : ¬ record.2.Resets) (pending : Wal) :
    liveRecord cfg sys answers p record pending = { sys with process := none } ∨
      Handled cfg sys (liveRecord cfg sys answers p record pending) p record pending := by
  have hskip : dispatchRecord cfg p.state record.2 = .ok (p.state, []) →
      liveRecord cfg sys answers p record pending = { sys with
        process := some ⟨p.state, record.1, p.eventsSinceSnapshot, pending⟩
        live := sys.live ++ [record] } →
      Handled cfg sys (liveRecord cfg sys answers p record pending) p record pending := by
    intro hdispatch hlive
    refine ⟨p.state, [], p.eventsSinceSnapshot, sys.snapshots, hdispatch,
      fun row hrow => Or.inl hrow, ?_⟩
    rw [hlive]
    simp [executions]
  cases hchannel : record.2.channel with
  | none => exact Or.inr (hskip (by simp [dispatchRecord, hchannel, pure, Except.pure])
      (by simp [liveRecord, hchannel]))
  | some channel =>
      cases hdata : record.2.data with
      | none => exact Or.inr (hskip (by simp [dispatchRecord, hchannel, hdata, pure, Except.pure])
          (by simp [liveRecord, hchannel, hdata]))
      | some data =>
          have hname : channel ≠ "reset" := fun heq => hreset ⟨heq ▸ hchannel, by simp [hdata]⟩
          cases hdispatch : dispatchEvent cfg p.state channel data with
          | error f =>
              left
              simp [liveRecord, hchannel, hdata, hdispatch]
          | ok r =>
              right
              by_cases hfull : 1000 ≤ p.eventsSinceSnapshot + 1
              · refine ⟨r.1, r.2, 0, saveSnapshot cfg sys answers record.1 r.1, ?_, ?_, ?_⟩
                · simp [dispatchRecord, hchannel, hdata, hdispatch]
                · intro row hrow
                  unfold saveSnapshot at hrow
                  split at hrow
                  · have hrow : row ∈ (record.1, cfg.codec.toValue r.1) :: sys.snapshots := by
                      split at hrow
                      · exact List.mem_of_mem_take hrow
                      · exact hrow
                    exact (List.mem_cons.mp hrow).symm
                  · exact Or.inl hrow
                · simp [liveRecord, hchannel, hdata, hdispatch, hname, hfull, saveSnapshot]
              · refine ⟨r.1, r.2, p.eventsSinceSnapshot + 1, sys.snapshots, ?_, ?_, ?_⟩
                · simp [dispatchRecord, hchannel, hdata, hdispatch]
                · exact fun row hrow => Or.inl hrow
                · simp [liveRecord, hchannel, hdata, hdispatch, hname, hfull]

/-- An entry that is no reset moves the process on by one. -/
theorem Aligned.next (h : Aligned cfg sys) (answers : LiveAnswers) {p : Process}
    {record : StreamId × Record} {pending : Wal} (hp : sys.process = some p)
    (hpending : p.pending = record :: pending) (hreset : ¬ record.2.Resets) :
    Aligned cfg (liveRecord cfg sys answers p record pending) := by
  obtain ⟨front, back, outputs, hwal, hlast, hdispatch, rest, hback⟩ := h.process p hp
  rw [hpending] at hback
  have hmem : record ∈ sys.wal := by simp [hwal, ← hback]
  rcases liveRecord_cases answers p hreset pending with
    hlive | ⟨s, outputs', n, rows, hrecord, hrows, hlive⟩
  · rw [hlive]
    exact ⟨h.ordered, h.snapshots, fun _ heq => by cases heq⟩
  · rw [hlive]
    have hfront : sys.wal = (front ++ [record]) ++ (pending ++ rest) := by
      rw [hwal, ← hback]
      simp
    have hreached := dispatchRecords_concat cfg hdispatch hrecord
    refine ⟨h.ordered, ?_, ?_⟩
    · intro row hrow
      rcases hrows row hrow with hold | rfl
      · exact h.snapshots row hold
      · refine ⟨ne_of_gt (h.ordered.later record hmem), s, rfl, front ++ [record], pending ++ rest, _,
          hfront, ?_, hreached⟩
        rw [lastId_concat]
    · intro p' hp'
      cases hp'
      refine ⟨front ++ [record], pending ++ rest, _, hfront, ?_, hreached, List.prefix_append ..⟩
      rw [lastId_concat]

/-- Every step keeps the system aligned, if the entries that the live loop takes do. -/
theorem Aligned.step (h : Aligned cfg sys)
    (hcodec : ∀ s, cfg.codec.fromValue (cfg.codec.toValue s) = some s) {action : SystemAction}
    (hnext : ∀ answers p record pending, action = .next answers → sys.process = some p →
      p.pending = record :: pending → Aligned cfg (liveRecord cfg sys answers p record pending)) :
    Aligned cfg (sys.step cfg action) := by
  cases action with
  | append id record =>
      simp only [System.step]
      split
      · next hlater =>
        refine ⟨h.ordered.concat hlater, ?_, ?_⟩
        · intro row hrow
          obtain ⟨hzero, s, hvalue, hreached⟩ := h.snapshots row hrow
          exact ⟨hzero, s, hvalue, hreached.append _⟩
        · exact fun p hp => (h.process p hp).append _
      · exact h
  | start loads replays =>
      simp only [System.step]
      cases hprocess : sys.process with
      | none => exact ⟨h.ordered, h.snapshots, fun p hp => h.start_inPlace hcodec hp⟩
      | some p => exact h
  | read count =>
      simp only [System.step]
      split
      · next s lastId n hprocess =>
        obtain ⟨front, back, outputs, hwal, hlast, hdispatch, _⟩ := h.process _ hprocess
        refine ⟨h.ordered, h.snapshots, ?_⟩
        intro p' hp'
        cases hp'
        refine ⟨front, back, outputs, hwal, hlast, hdispatch, ?_⟩
        have hordered := h.ordered
        rw [hwal] at hordered
        simp only at hlast
        simp only [hlast, hwal, since_lastId hordered]
        exact List.take_prefix ..
      · exact h
  | next answers =>
      simp only [System.step]
      split
      · next s lastId n record pending hprocess => exact hnext answers _ record pending rfl hprocess rfl
      · exact h
  | crash => exact ⟨h.ordered, h.snapshots, fun _ heq => by cases heq⟩

/-- The batch of a process stands in the log. -/
theorem Aligned.mem_wal (h : Aligned cfg sys) {p : Process} (hp : sys.process = some p)
    {record : StreamId × Record} (hmem : record ∈ p.pending) : record ∈ sys.wal := by
  obtain ⟨front, back, _, hwal, _, _, hbatch⟩ := h.process p hp
  rw [hwal]
  exact List.mem_append_right _ (hbatch.subset hmem)

/-- The live loop leaves the log as it is or deletes it. -/
theorem wal_liveRecord (answers : LiveAnswers) (p : Process) (record : StreamId × Record)
    (pending : Wal) :
    (liveRecord cfg sys answers p record pending).wal = sys.wal ∨
      (liveRecord cfg sys answers p record pending).wal = [] := by
  unfold liveRecord
  split
  · split
    · exact Or.inl rfl
    · dsimp only
      split
      · cases answers.deletes with
        | false => exact Or.inl rfl
        | true => exact Or.inr rfl
      · split
        · exact Or.inl rfl
        · exact Or.inl rfl
  · exact Or.inl rfl

/-- What stands in the log was there or has just been appended. -/
theorem mem_wal_step {action : SystemAction} {e : StreamId × Record}
    (he : e ∈ (sys.step cfg action).wal) : e ∈ sys.wal ∨ action = .append e.1 e.2 := by
  cases action with
  | append id record =>
      simp only [System.step] at he
      split at he
      · rcases List.mem_append.mp he with he | he
        · exact Or.inl he
        · rw [List.mem_singleton.mp he]
          exact Or.inr rfl
      · exact Or.inl he
  | start loads replays =>
      simp only [System.step] at he
      split at he
      · exact Or.inl he
      · exact Or.inl he
  | read count =>
      simp only [System.step] at he
      split at he
      · exact Or.inl he
      · exact Or.inl he
  | next answers =>
      simp only [System.step] at he
      split at he
      · next s lastId n record pending _ =>
        rcases wal_liveRecord answers ⟨s, lastId, n, record :: pending⟩ record pending with hwal | hwal
        · exact Or.inl (hwal ▸ he)
        · rw [hwal] at he
          cases he
      · exact Or.inl he
  | crash => exact Or.inl he

theorem Sound.step (h : Sound cfg sys)
    (hcodec : ∀ s, cfg.codec.fromValue (cfg.codec.toValue s) = some s) {action : SystemAction}
    (hreset : ∀ id record, action = .append id record → ¬ record.Resets) :
    Sound cfg (sys.step cfg action) := by
  have haligned : Aligned cfg (sys.step cfg action) := by
    apply h.aligned.step hcodec
    intro answers p record pending _ hp hpending
    apply h.aligned.next answers hp hpending
    exact h.resetFree record (h.aligned.mem_wal hp (hpending ▸ List.mem_cons_self ..))
  refine ⟨haligned.ordered, ?_, haligned.snapshots, haligned.process⟩
  intro e he
  rcases mem_wal_step he with he | hact
  · exact h.resetFree e he
  · exact hreset e.1 e.2 hact

theorem sound_init : Sound cfg (.init cfg.codec.Json) :=
  ⟨⟨List.Pairwise.nil, by simp [System.init]⟩, by simp [System.init], by simp [System.init],
    fun _ heq => by cases heq⟩

theorem Sound.run (h : Sound cfg sys)
    (hcodec : ∀ s, cfg.codec.fromValue (cfg.codec.toValue s) = some s) {actions : List SystemAction}
    (hreset : ∀ id record, SystemAction.append id record ∈ actions → ¬ record.Resets) :
    Sound cfg (runSystem cfg sys actions) := by
  induction actions generalizing sys with
  | nil => exact h
  | cons action actions ih =>
      refine ih (h.step hcodec ?_) fun id record hmem => hreset id record (List.mem_cons_of_mem _ hmem)
      rintro id record rfl
      exact hreset id record (List.mem_cons_self ..)

end Steps

/-- **Recovery.** Whatever was appended, read in whatever batches, saved or not, and wherever the process
died, over a log without resets: a start whose replay goes through, with a snapshot or without one, has
the state of an uninterrupted dispatch of the log from the empty engine and stands at the end of the log
(or panics as that dispatch does). And a running process always has the state of such a dispatch of the
entries up to its `last_id`, each of them once, and what it works on and reads next is what follows
them. -/
theorem recovery_eq_uninterrupted (cfg : Config)
    (hcodec : ∀ s, cfg.codec.fromValue (cfg.codec.toValue s) = some s) (actions : List SystemAction)
    (hreset : ∀ id record, SystemAction.append id record ∈ actions → ¬ record.Resets) :
    let sys := runSystem cfg (.init cfg.codec.Json) actions
    (∀ loads, startProcess cfg sys loads true =
      match dispatchRecords cfg (.new cfg.fees) sys.wal with
      | .ok (s, _) => some ⟨s, Log.lastId .zero sys.wal, 0, []⟩
      | .error _ => none) ∧
    ∀ p, sys.process = some p → ∃ handled rest outputs, sys.wal = handled ++ rest ∧
      p.lastId = Log.lastId .zero handled ∧
      dispatchRecords cfg (.new cfg.fees) handled = .ok (p.state, outputs) ∧
      p.pending <+: rest ∧ Log.since p.lastId sys.wal = rest := by
  intro sys
  have hsound : Sound cfg sys := sound_init.run hcodec hreset
  refine ⟨hsound.aligned.start hcodec, fun p hp => ?_⟩
  obtain ⟨handled, rest, outputs, hwal, hlast, hdispatch, hpending⟩ := hsound.process p hp
  refine ⟨handled, rest, outputs, hwal, hlast, hdispatch, hpending, ?_⟩
  have hordered := hsound.ordered
  rw [hwal] at hordered
  rw [hlast, hwal, since_lastId hordered]

/-! ### Whole batches -/

section Batches

variable {cfg : Config} {sys : System cfg.codec.Json} {entries pending : Wal} {s s' : EngineState}

theorem runSystem_cons (cfg : Config) (sys : System cfg.codec.Json) (action : SystemAction)
    (actions : List SystemAction) :
    runSystem cfg sys (action :: actions) = runSystem cfg (sys.step cfg action) actions := rfl

theorem runSystem_append (cfg : Config) (sys : System cfg.codec.Json) (front back : List SystemAction) :
    runSystem cfg sys (front ++ back) = runSystem cfg (runSystem cfg sys front) back :=
  List.foldl_append ..

/-- Entries whose ids keep on increasing are all appended. -/
theorem runSystem_appends (h : Ordered (lastId .zero sys.wal) entries) :
    runSystem cfg sys (entries.map fun e => .append e.1 e.2)
      = { sys with wal := sys.wal ++ entries } := by
  induction entries generalizing sys with
  | nil => simp [runSystem]
  | cons e entries ih =>
      obtain ⟨hfirst, hrest⟩ := List.pairwise_cons.mp h.increasing
      have hstep : sys.step cfg (.append e.1 e.2) = { sys with wal := sys.wal ++ [e] } := by
        rw [System.step, if_pos (h.later e (List.mem_cons_self ..))]
      have hordered : Ordered (lastId .zero (sys.wal ++ [e])) entries := by
        rw [lastId_concat]
        exact ⟨hrest, hfirst⟩
      rw [List.map_cons, runSystem, List.foldl_cons, hstep]
      refine (@ih { sys with wal := sys.wal ++ [e] } hordered).trans ?_
      rw [List.append_assoc, List.singleton_append]

/-- As long as no snapshot is due and nothing is reset, the live loop dispatches the entries of its
batch and publishes what they emit. -/
theorem runSystem_batch {outputs : List Output} {last : StreamId} {n : Nat} (answers : LiveAnswers)
    (hfields : ∀ e ∈ entries, ∃ channel data, e.2 = ⟨some channel, some data⟩ ∧ channel ≠ "reset")
    (hdispatch : dispatchRecords cfg s entries = .ok (s', outputs)) (hcount : n + entries.length < 1000)
    (hp : sys.process = some ⟨s, last, n, entries ++ pending⟩) :
    runSystem cfg sys (List.replicate entries.length (.next answers))
      = { sys with
          executions := sys.executions ++ executions outputs
          live := sys.live ++ entries
          process := some ⟨s', lastId last entries, n + entries.length, pending⟩ } := by
  induction entries generalizing sys s outputs last n with
  | nil =>
      cases hdispatch
      cases sys
      cases hp
      simp [runSystem, executions]
  | cons e entries ih =>
      obtain ⟨id, record⟩ := e
      obtain ⟨channel, data, rfl, hreset⟩ := hfields _ (List.mem_cons_self ..)
      obtain ⟨⟨s₁, first⟩, hfirst, hdispatch⟩ := bind_ok hdispatch
      obtain ⟨⟨s₂, later⟩, hlater, hdispatch⟩ := bind_ok hdispatch
      cases hdispatch
      rw [List.length_cons] at hcount
      have hevent : dispatchEvent cfg s channel data = .ok (s₁, first) := hfirst
      have hstep : sys.step cfg (.next answers) = { sys with
          executions := sys.executions ++ executions first
          live := sys.live ++ [(id, ⟨some channel, some data⟩)]
          process := some ⟨s₁, id, n + 1, entries ++ pending⟩ } := by
        simp only [System.step, hp, List.cons_append, liveRecord, hevent, if_neg hreset]
        rw [if_neg (by omega)]
      rw [List.length_cons, List.replicate_succ, runSystem, List.foldl_cons, hstep]
      refine (ih (fun e he => hfields e (List.mem_cons_of_mem _ he)) hlater (by omega) rfl).trans ?_
      rw [lastId_cons]
      simp only [executions, List.filterMap_append, List.append_assoc, List.singleton_append]
      rw [show n + 1 + entries.length = n + (entries.length + 1) by omega]

end Batches

/-! ### A restart -/

def onrampData (user : Nat) : String :=
  "\x7b\"user_id\":" ++ toString user
    ++ ",\"qty\":100,\"queue_id\":\"q\",\"identifier\":\"a\"\x7d"

def onrampRecord (user : Nat) : Record := ⟨some "onramp", some (onrampData user)⟩

def onrampConfig : Config where
  arith := u64 false
  builtins := .noSlippage
  fees := ⟨10, 20⟩
  decoder :=
    { signup := fun _ => none
      onramp := fun data => [1, 2].findSome? fun user =>
        if data = onrampData user then some ⟨user, 100, "q", "a"⟩ else none
      deposit := fun _ => none
      balance := fun _ => none
      order := fun _ => none
      cancel := fun _ => none
      orderbook := fun _ => none
      openOrders := fun _ => none
      orderStatus := fun _ => none
      reset := fun _ => none }
  codec := ⟨EngineState, id, some⟩

/-- An onramp of each user, and in between entries of a channel that the engine does not know. They are
too many to be unfolded in a proof. -/
@[irreducible] def longLog : Wal := (List.range 1001).map fun n => (toLex (n + 1, 0),
  if n = 0 then onrampRecord 1 else if n = 1000 then onrampRecord 2 else ⟨some "ping", some ""⟩)

theorem ordered_longLog : Ordered .zero longLog := by
  unfold longLog
  refine ⟨List.pairwise_lt_range.map _ fun m n hlt => ?_, fun e he => ?_⟩
  · exact Prod.Lex.toLex_lt_toLex.mpr (.inl (by omega))
  · obtain ⟨n, _, rfl⟩ := List.mem_map.mp he
    exact Prod.Lex.toLex_lt_toLex.mpr (.inl (by omega))

theorem fields_longLog : ∀ e ∈ longLog, ∃ channel data, e.2 = ⟨some channel, some data⟩ ∧
    channel ≠ "reset" := by
  intro e he
  unfold longLog at he
  obtain ⟨n, _, rfl⟩ := List.mem_map.mp he
  dsimp only
  split
  · exact ⟨"onramp", _, rfl, by decide⟩
  · split
    · exact ⟨"onramp", _, rfl, by decide⟩
    · exact ⟨"ping", _, rfl, by decide⟩

def succeeding : LiveAnswers := ⟨true, true, true, true⟩

/-- The process reads the whole log. Once it has dispatched a thousand entries it saves a snapshot, and
it dies with the last one in its batch. -/
def snapshotRestart : List SystemAction :=
  .start true true :: longLog.map (fun e => .append e.1 e.2)
    ++ .read 2000 :: List.replicate 999 (.next succeeding) ++ [.next succeeding, .crash]

theorem resetFree_snapshotRestart (id : StreamId) (record : Record)
    (h : SystemAction.append id record ∈ snapshotRestart) : ¬ record.Resets := by
  rintro ⟨hchannel, _⟩
  have hmem : (id, record) ∈ longLog := by
    rw [snapshotRestart, List.append_assoc, List.mem_append] at h
    rcases h with h | h
    · obtain ⟨e, he, heq⟩ := List.mem_map.mp ((List.mem_cons.mp h).resolve_left SystemAction.noConfusion)
      cases heq
      exact he
    · rcases List.mem_cons.mp h with h | h
      · cases h
      · rcases List.mem_append.mp h with h | h
        · cases (List.mem_replicate.mp h).2
        · simp at h
  obtain ⟨channel, data, rfl, hreset⟩ := fields_longLog _ hmem
  exact hreset (Option.some.inj hchannel)

theorem snapshotRestart_saves : ∃ s, (s.usd 1).available = 100 ∧
    (runSystem onrampConfig (.init _) snapshotRestart).snapshots = [(toLex (1000, 0), s)] ∧
    (runSystem onrampConfig (.init _) snapshotRestart).wal = longLog := by
  obtain ⟨⟨s, outputs⟩, hdispatch, htest⟩ := exists_of_returns
    (dispatchRecords onrampConfig (.new onrampConfig.fees) (longLog.take 999))
    (fun r => decide ((r.1.usd 1).available = 100)) (by decide +kernel)
  have hfields : ∀ e ∈ longLog.take 999, ∃ channel data, e.2 = ⟨some channel, some data⟩ ∧
      channel ≠ "reset" := fun e he => fields_longLog e (List.mem_of_mem_take he)
  have hlength : (longLog.take 999).length = 999 := by decide +kernel
  have hsince : Log.since .zero longLog = longLog :=
    List.filter_eq_self.mpr fun e he => decide_eq_true (ordered_longLog.later e he)
  have htake : longLog.take 2000 = longLog := List.take_of_length_le (by decide +kernel)
  have hdue : longLog.drop 999 = [(toLex (1000, 0), ⟨some "ping", some ""⟩),
      (toLex (1001, 0), onrampRecord 2)] := by decide +kernel
  have hstart : (System.init _).step onrampConfig (.start true true)
      = ⟨[], [], [], some ⟨.new onrampConfig.fees, .zero, 0, []⟩, []⟩ := rfl
  have happended : runSystem onrampConfig (.init _)
        (.start true true :: longLog.map fun e => .append e.1 e.2)
      = ⟨longLog, [], [], some ⟨.new onrampConfig.fees, .zero, 0, []⟩, []⟩ := by
    rw [runSystem_cons, hstart]
    exact runSystem_appends ordered_longLog
  have hbatch : runSystem onrampConfig
        ⟨longLog, [], [], some ⟨.new onrampConfig.fees, .zero, 0, []⟩, []⟩
        (.read 2000 :: List.replicate 999 (.next succeeding))
      = ⟨longLog, executions outputs, [],
          some ⟨s, lastId .zero (longLog.take 999), 999, longLog.drop 999⟩, longLog.take 999⟩ := by
    have hrun := @runSystem_batch onrampConfig
      ⟨longLog, [], [], some ⟨.new onrampConfig.fees, .zero, 0, longLog⟩, []⟩
      _ (longLog.drop 999) _ _ _ _ 0 succeeding hfields hdispatch
      (by rw [hlength]; decide) (by rw [List.take_append_drop])
    rw [hlength] at hrun
    rw [runSystem_cons]
    simp only [System.step, hsince, htake]
    exact hrun
  rw [snapshotRestart, runSystem_append, runSystem_append, happended, hbatch, hdue]
  exact ⟨s, of_decide_eq_true htest, rfl, rfl⟩

theorem recovery_eq_uninterrupted_restart :
    (runSystem onrampConfig (.init _) snapshotRestart).snapshots.map Prod.fst = [toLex (1000, 0)] ∧
    ∃ p, startProcess onrampConfig (runSystem onrampConfig (.init _) snapshotRestart) true true = some p ∧
      p.lastId = toLex (1001, 0) ∧ (p.state.usd 1).available = 100 ∧ (p.state.usd 2).available = 100 := by
  obtain ⟨hstart, _⟩ := recovery_eq_uninterrupted onrampConfig (fun _ => rfl) snapshotRestart
    resetFree_snapshotRestart
  obtain ⟨saved, _, hsnapshots, hwal⟩ := snapshotRestart_saves
  obtain ⟨⟨s, outputs⟩, hdispatch, htest⟩ := exists_of_returns
    (dispatchRecords onrampConfig (.new onrampConfig.fees) longLog)
    (fun r => decide ((r.1.usd 1).available = 100 ∧ (r.1.usd 2).available = 100)) (by decide +kernel)
  have hrun := hstart true
  rw [hwal, hdispatch] at hrun
  obtain ⟨hfirst, hsecond⟩ := of_decide_eq_true htest
  have hlast : Log.lastId .zero longLog = toLex (1001, 0) := by decide +kernel
  exact ⟨congrArg (List.map Prod.fst) hsnapshots, ⟨s, Log.lastId .zero longLog, 0, []⟩, hrun, hlast,
    hfirst, hsecond⟩

end CexRs
