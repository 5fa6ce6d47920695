import CexRs.Lib.Fold
import CexRs.ListenerLoop

/-!
# What the listener hands on

Once a record has been received, the cursor is an id, and whatever stands after it is read in its turn.
Until then the cursor is read anew with every poll, so that what is appended between two polls, or found
by a poll that fails, is never asked for again. What is lost this way stands in the stream right after
the place where the first poll found its end, and before everything that is handed on.
-/

namespace CexRs

open Log

namespace ListenerState

section Handed

variable (parse : String → Option ExecutionEvent)

def events (l : ExecutionStream) : List ExecutionEvent := l.filterMap (·.2.bind parse)

@[simp] theorem events_nil : events parse [] = [] := rfl

@[simp] theorem events_append (l l' : ExecutionStream) :
    events parse (l ++ l') = events parse l ++ events parse l' :=
  List.filterMap_append ..

variable (s : ListenerState)

def later : List ExecutionEvent := s.opened.elim [] fun id => events parse (since id s.stream)

/-- The loop with nothing happening in between: `n` times an `XREAD` that is answered. -/
def polled (serialize : ExecutionEvent → String) (now : StreamId → Int) :
    ListenerState → Nat → ListenerState
  | s, 0 => s
  | s, n + 1 =>
      polled serialize now ((s.step serialize parse .poll).step serialize parse (.reply 100 now)) n

/-- The later events are handed on in order, and all of them once the loop catches up. -/
def Forwards (serialize : ExecutionEvent → String) : Prop :=
  s.handed.map Prod.snd <+: s.later parse ∧
    ∀ now, ∃ n, (polled parse serialize now s n).handed.map Prod.snd = s.later parse

/-- A batch moves the cursor to its end, and its events are handed on. -/
theorem foldl_receive (now : StreamId → Int) (batch : ExecutionStream) :
    ∃ handed, handed.map Prod.snd = s.handed.map Prod.snd ++ events parse batch ∧
      batch.foldl (fun s record => s.receive parse now record) s =
        { s with lastId := (batch.getLast?.map Prod.fst).or s.lastId, handed } := by
  induction batch using List.reverseRecOn with
  | nil => exact ⟨s.handed, by simp, by simp⟩
  | append_singleton batch record ih =>
      obtain ⟨handed, hhanded, hfold⟩ := ih
      rw [List.foldl_append, hfold, List.foldl_cons, List.foldl_nil]
      unfold receive
      cases hevent : record.2.bind parse with
      | none =>
          refine ⟨handed, ?_, by simp⟩
          rw [hhanded, events_append]
          simp [events, hevent]
      | some event =>
          refine ⟨handed ++ [(now record.1, event)], ?_, by simp⟩
          rw [List.map_append, hhanded, events_append]
          simp [events, hevent]

end Handed

/-! ### The invariant -/

/-- The stream up to where the first poll found its end, what was lost after that, what was read, and
the rest. -/
structure Opened (parse : String → Option ExecutionEvent) (s : ListenerState)
    (before lost read rest : ExecutionStream) : Prop where
  stream : s.stream = before ++ lost ++ read ++ rest
  ordered : Ordered .zero s.stream
  opened : s.opened = some (Log.lastId .zero before)
  handed : s.handed.map Prod.snd = events parse read
  unread : s.lastId = none → read = []
  cursor : ∀ id ∈ s.lastId, id = Log.lastId .zero (before ++ lost ++ read)
  reading : ∀ id ∈ s.reading, id = Log.lastId .zero (before ++ lost ++ read)
  idle : s.lastId = none → s.reading = none → rest = []
  parses : ∀ e ∈ lost ++ read ++ rest, (e.2.bind parse).isSome

inductive Tracks (parse : String → Option ExecutionEvent) (s : ListenerState) :
    ExecutionStream → Prop
  | closed (ordered : Ordered .zero s.stream) (opened : s.opened = none) (lastId : s.lastId = none)
      (reading : s.reading = none) (handed : s.handed = []) : Tracks parse s []
  | opened {before lost read rest : ExecutionStream} (h : Opened parse s before lost read rest) :
      Tracks parse s lost

/-- Between two polls, as long as the cursor is `"$"`. -/
def InGap (s : ListenerState) : Prop := s.opened ≠ none ∧ s.lastId = none ∧ s.reading = none

/-- Nothing is appended in a gap, and no poll whose cursor is `"$"` fails once there is something to
return. -/
def Gapless (s : ListenerState) : ListenerAction → Prop
  | .append id _ => Log.lastId .zero s.stream < id → ¬ s.InGap
  | .fail => s.lastId = none → ∀ id ∈ s.reading, since id s.stream = []
  | .poll | .reply _ _ | .timeout => True

section Step

variable {serialize : ExecutionEvent → String} {parse : String → Option ExecutionEvent}
  {s : ListenerState} {before lost read rest : ExecutionStream}

theorem Opened.since_cursor (h : Opened parse s before lost read rest) :
    since (Log.lastId .zero (before ++ lost ++ read)) s.stream = rest := by
  rw [h.stream]
  exact since_lastId (h.stream ▸ h.ordered)

theorem Opened.later (h : Opened parse s before lost read rest) :
    s.later parse = events parse (lost ++ read ++ rest) := by
  have hstream : s.stream = before ++ (lost ++ read ++ rest) := by
    rw [h.stream]
    simp only [List.append_assoc]
  rw [ListenerState.later, h.opened, Option.elim_some, hstream,
    since_lastId (hstream ▸ h.ordered)]

variable (serialize) in
/-- The next poll starts where the reading has come to. -/
theorem Opened.poll (h : Opened parse s before lost read rest) :
    Opened parse (s.step serialize parse .poll) before lost read rest ∧
      (s.step serialize parse .poll).reading = some (Log.lastId .zero (before ++ lost ++ read)) := by
  cases hreading : s.reading with
  | some id =>
      simp only [step, hreading]
      exact ⟨h, congrArg some (h.reading id hreading)⟩
  | none =>
      have hstart : s.lastId.getD (Log.lastId .zero s.stream)
          = Log.lastId .zero (before ++ lost ++ read) := by
        cases hlast : s.lastId with
        | some id => exact h.cursor id hlast
        | none =>
            rw [Option.getD_none, h.stream, h.idle hlast hreading, List.append_nil]
      simp only [step, hreading, hstart]
      refine ⟨⟨h.stream, h.ordered, ?_, h.handed, h.unread, h.cursor, ?_, ?_, h.parses⟩, trivial⟩
      · simp only [h.opened, Option.getD_some]
      · rintro id ⟨⟩
        rfl
      · rintro - ⟨⟩

variable (serialize) in
theorem Opened.reply (h : Opened parse s before lost read rest) {start : StreamId}
    (hreading : s.reading = some start) (count : Nat) (now : StreamId → Int) :
    Opened parse (s.step serialize parse (.reply count now)) before lost
      (read ++ rest.take (min count 100)) (rest.drop (min count 100)) := by
  have hrest : since start s.stream = rest := by
    rw [h.reading start hreading, h.since_cursor]
  simp only [step, hreading, hrest]
  obtain ⟨batch, hbatch⟩ : ∃ batch, batch = rest.take (min count 100) := ⟨_, rfl⟩
  have hsplit : batch ++ rest.drop (min count 100) = rest := hbatch ▸ List.take_append_drop ..
  rw [← hbatch]
  rcases List.eq_nil_or_concat batch with hnil | ⟨front, last, hconcat⟩
  · rw [hnil, List.nil_append] at hsplit
    rw [hnil, hsplit, List.append_nil, List.isEmpty_nil, if_pos rfl]
    exact h
  · rw [List.concat_eq_append] at hconcat
    have hne : batch.isEmpty = false := by simp [hconcat]
    obtain ⟨handed, hhanded, hfold⟩ := foldl_receive parse { s with reading := none } now batch
    rw [hne, if_neg Bool.false_ne_true, hfold]
    have hlast : batch.getLast? = some last := by simp [hconcat]
    have hcursor : Log.lastId .zero (before ++ lost ++ (read ++ batch)) = last.1 := by
      rw [hconcat, ← List.append_assoc, ← List.append_assoc, lastId_concat]
    have hstream : s.stream
        = before ++ lost ++ (read ++ batch) ++ rest.drop (min count 100) := by
      rw [h.stream]
      nth_rewrite 1 [← hsplit]
      simp only [List.append_assoc]
    refine ⟨hstream, h.ordered, h.opened, ?_, ?_, ?_, ?_, ?_, ?_⟩
    · rw [hhanded, h.handed, events_append]
    · simp [hlast]
    · rw [hlast, hcursor]
      rintro id ⟨⟩
      rfl
    · rintro id ⟨⟩
    · simp [hlast]
    · intro e he
      refine h.parses e ?_
      rw [← hsplit]
      simpa only [List.append_assoc] using he

/-- What is appended in a gap is lost. -/
theorem Opened.append_lost (h : Opened parse s before lost read rest) (hgap : s.InGap)
    {e : StreamId × Option String} (he : Log.lastId .zero s.stream < e.1)
    (hparses : (e.2.bind parse).isSome) :
    Opened parse { s with stream := s.stream ++ [e] } before (lost ++ [e]) [] [] := by
  obtain ⟨_, hlast, hreading⟩ := hgap
  have hread := h.unread hlast
  have hrest := h.idle hlast hreading
  subst hread hrest
  refine ⟨?_, h.ordered.concat he, h.opened, h.handed, fun _ => rfl, ?_, ?_, fun _ _ => rfl, ?_⟩
  · simp only [h.stream, List.append_nil, List.append_assoc]
  · rw [hlast]
    rintro _ ⟨⟩
  · rw [hreading]
    rintro _ ⟨⟩
  · intro e' he'
    simp only [List.append_nil, List.mem_append, List.mem_singleton] at he'
    rcases he' with he' | rfl
    · exact h.parses e' (by simp [he'])
    · exact hparses

theorem Opened.append_read (h : Opened parse s before lost read rest) (hgap : ¬ s.InGap)
    {e : StreamId × Option String} (he : Log.lastId .zero s.stream < e.1)
    (hparses : (e.2.bind parse).isSome) :
    Opened parse { s with stream := s.stream ++ [e] } before lost read (rest ++ [e]) := by
  refine ⟨?_, h.ordered.concat he, h.opened, h.handed, h.unread, h.cursor, h.reading, ?_, ?_⟩
  · simp only [h.stream, List.append_assoc]
  · intro hlast hreading
    exact absurd ⟨by simp [h.opened], hlast, hreading⟩ hgap
  · intro e' he'
    simp only [← List.append_assoc, List.mem_append, List.mem_singleton] at he'
    rcases he' with he' | rfl
    · exact h.parses e' (by simpa only [List.mem_append] using he')
    · exact hparses

theorem Opened.append (h : Opened parse s before lost read rest) {id : StreamId}
    {event : ExecutionEvent} (hid : Log.lastId .zero s.stream < id)
    (hserde : parse (serialize event) = some event) :
    ∃ more, Tracks parse (s.step serialize parse (.append id event)) (lost ++ more) ∧
      (¬ s.InGap ↔ more = []) := by
  have hparses : ((some (serialize event)).bind parse).isSome := by simp [hserde]
  simp only [step, if_pos hid]
  by_cases hgap : s.InGap
  · exact ⟨_, .opened (h.append_lost hgap hid hparses), by simp [hgap]⟩
  · refine ⟨[], ?_, by simp [hgap]⟩
    rw [List.append_nil]
    exact .opened (h.append_read hgap hid hparses)

/-- A poll for `"$"` that fails forgets what it found. -/
theorem Opened.forget (h : Opened parse s before lost read rest) (hlast : s.lastId = none) :
    Opened parse { s with reading := none } before (lost ++ rest) [] [] := by
  have hread := h.unread hlast
  subst hread
  refine ⟨?_, h.ordered, h.opened, h.handed, fun _ => rfl, ?_, ?_, fun _ _ => rfl, ?_⟩
  · simp only [h.stream, List.append_nil, List.append_assoc]
  · rw [hlast]
    rintro _ ⟨⟩
  · rintro _ ⟨⟩
  · simpa only [List.append_nil] using h.parses

/-- A poll that stops without a reply leaves the reading where it is, if it has a cursor or has found
nothing. -/
theorem Opened.stop (h : Opened parse s before lost read rest) (hidle : s.lastId = none → rest = []) :
    Opened parse { s with reading := none } before lost read rest := by
  refine ⟨h.stream, h.ordered, h.opened, h.handed, h.unread, h.cursor, ?_, fun hlast _ => hidle hlast,
    h.parses⟩
  rintro _ ⟨⟩

variable (serialize) in
theorem Opened.timeout (h : Opened parse s before lost read rest) :
    Opened parse (s.step serialize parse .timeout) before lost read rest := by
  cases hreading : s.reading with
  | none =>
      simp only [step, hreading]
      exact h
  | some start =>
      have hrest : since start s.stream = rest := by
        rw [h.reading start hreading, h.since_cursor]
      simp only [step, hreading, hrest]
      split
      · next hempty => exact h.stop fun _ => List.isEmpty_iff.mp hempty
      · exact h

theorem Opened.fail (h : Opened parse s before lost read rest) :
    ∃ more, Tracks parse (s.step serialize parse .fail) (lost ++ more) ∧
      (s.Gapless .fail ↔ more = []) := by
  by_cases hlast : s.lastId = none
  · refine ⟨rest, .opened (h.forget hlast), ?_⟩
    cases hreading : s.reading with
    | none => simp [Gapless, hlast, hreading, h.idle hlast hreading]
    | some id =>
        have hrest : since id s.stream = rest := by rw [h.reading id hreading, h.since_cursor]
        simp [Gapless, hlast, hreading, hrest]
  · refine ⟨[], ?_, by simp [Gapless, hlast]⟩
    rw [List.append_nil]
    exact .opened (h.stop fun hnone => absurd hnone hlast)

/-- Where the first poll finds the end of the stream, everything is still to be read. -/
theorem opened_first (hordered : Ordered .zero s.stream) (hopened : s.opened = none)
    (hlast : s.lastId = none) (hreading : s.reading = none) (hhanded : s.handed = []) :
    Opened parse (s.step serialize parse .poll) s.stream [] [] [] := by
  simp only [step, hreading, hlast, hopened, Option.getD_none]
  refine ⟨by simp, hordered, rfl, by simp [hhanded], fun _ => rfl, ?_, ?_, fun _ _ => rfl, by simp⟩
  · rintro _ ⟨⟩
  · rintro _ ⟨⟩
    simp

/-- Only what is appended in a gap, or found by a poll that fails, is lost. -/
theorem Tracks.step {lost : ExecutionStream} (h : Tracks parse s lost) (action : ListenerAction)
    (hserde : ∀ id event, action = .append id event → parse (serialize event) = some event) :
    ∃ more, Tracks parse (s.step serialize parse action) (lost ++ more) ∧
      (s.Gapless action ↔ more = []) := by
  cases h with
  | closed hordered hopened hlast hreading hhanded =>
      refine ⟨[], ?_, ?_⟩
      · cases action with
        | append id event =>
            simp only [ListenerState.step]
            split
            · next hid => exact .closed (hordered.concat hid) hopened hlast hreading hhanded
            · exact .closed hordered hopened hlast hreading hhanded
        | poll =>
            rw [List.append_nil]
            exact .opened (opened_first hordered hopened hlast hreading hhanded)
        | reply count now =>
            simp only [ListenerState.step, hreading]
            exact .closed hordered hopened hlast hreading hhanded
        | timeout =>
            simp only [ListenerState.step, hreading]
            exact .closed hordered hopened hlast hreading hhanded
        | fail => exact .closed hordered hopened hlast rfl hhanded
      · cases action <;> simp [Gapless, InGap, hopened, hreading]
  | @opened before _ read rest h =>
      cases action with
      | append id event =>
          by_cases hid : Log.lastId .zero s.stream < id
          · obtain ⟨more, htracks, hmore⟩ := h.append hid (hserde id event rfl)
            refine ⟨more, htracks, ?_⟩
            rw [← hmore]
            exact ⟨fun hgapless => hgapless hid, fun hgap _ => hgap⟩
          · refine ⟨[], ?_, by simp [Gapless, hid]⟩
            simp only [ListenerState.step, if_neg hid, List.append_nil]
            exact .opened h
      | poll => exact ⟨[], by simpa using .opened (h.poll serialize).1, by simp [Gapless]⟩
      | reply count now =>
          refine ⟨[], ?_, by simp [Gapless]⟩
          rw [List.append_nil]
          cases hreading : s.reading with
          | none =>
              simp only [ListenerState.step, hreading]
              exact .opened h
          | some start => exact .opened (h.reply serialize hreading count now)
      | timeout => exact ⟨[], by simpa using .opened (h.timeout serialize), by simp [Gapless]⟩
      | fail => exact h.fail

end Step

/-! ### Runs -/

abbrev AllGapless (serialize : ExecutionEvent → String) (parse : String → Option ExecutionEvent) :
    ListenerState → List ListenerAction → Prop :=
  Fold.EachMeets (step serialize parse) Gapless

section Run

variable {serialize : ExecutionEvent → String} {parse : String → Option ExecutionEvent}
  {s : ListenerState} {before lost read rest : ExecutionStream}

theorem Tracks.run (h : Tracks parse s lost) {actions : List ListenerAction}
    (hserde : ∀ id event, .append id event ∈ actions → parse (serialize event) = some event) :
    ∃ more, Tracks parse (s.run serialize parse actions) (lost ++ more) ∧
      (AllGapless serialize parse s actions ↔ more = []) := by
  induction actions generalizing s lost with
  | nil => exact ⟨[], by rwa [List.append_nil], by simp [Fold.EachMeets]⟩
  | cons action actions ih =>
      obtain ⟨first, hfirst, hgapless⟩ :=
        h.step action fun id event heq => hserde id event (heq ▸ List.mem_cons_self ..)
      obtain ⟨more, hmore, hall⟩ :=
        ih hfirst fun id event hmem => hserde id event (List.mem_cons_of_mem _ hmem)
      refine ⟨first ++ more, by rwa [← List.append_assoc], ?_⟩
      have hcons : AllGapless serialize parse s (action :: actions) ↔
          s.Gapless action ∧ AllGapless serialize parse (s.step serialize parse action) actions := .rfl
      rw [hcons, hgapless, hall, List.append_eq_nil_iff]

/-- Each undisturbed poll hands on the next hundred entries. -/
theorem Opened.polled (h : Opened parse s before lost read rest) (now : StreamId → Int) (n : Nat) :
    (polled parse serialize now s n).handed.map Prod.snd
      = events parse (read ++ rest.take (100 * n)) := by
  induction n generalizing s read rest with
  | zero => simpa [ListenerState.polled] using h.handed
  | succ n ih =>
      obtain ⟨hpoll, hreading⟩ := h.poll serialize
      have hreply := hpoll.reply serialize hreading 100 now
      rw [ListenerState.polled, ih hreply, List.append_assoc]
      congr 2
      rw [show 100 * (n + 1) = 100 + 100 * n by omega, List.take_add]
      rfl

/-- Everything is forwarded if nothing is lost. -/
theorem Tracks.forwards_iff (h : Tracks parse s lost) : s.Forwards parse serialize ↔ lost = [] := by
  cases h with
  | closed _ hopened _ _ hhanded =>
      have hlater : s.later parse = [] := by rw [later, hopened, Option.elim_none]
      refine iff_of_true ⟨?_, fun now => ⟨0, ?_⟩⟩ rfl
      · rw [hhanded, hlater]
        exact List.prefix_rfl
      · rw [hlater, polled, hhanded]
        rfl
  | @opened before _ read rest h =>
      constructor
      · rintro ⟨_, hcatch⟩
        obtain ⟨n, hn⟩ := hcatch fun _ => 0
        rw [h.polled, h.later] at hn
        have hlength := congrArg List.length hn
        have htake : (events parse (rest.take (100 * n))).length ≤ (events parse rest).length :=
          ((List.take_sublist _ _).filterMap _).length_le
        simp only [events_append, List.length_append] at hlength
        have hzero : events parse lost = [] := List.length_eq_zero_iff.mp (by omega)
        refine List.eq_nil_iff_forall_not_mem.mpr fun e he => ?_
        have hnone := List.filterMap_eq_nil_iff.mp hzero e he
        have hsome := h.parses e (by simp [he])
        rw [hnone] at hsome
        cases hsome
      · rintro rfl
        refine ⟨?_, fun now => ⟨rest.length, ?_⟩⟩
        · rw [h.handed, h.later, List.nil_append, events_append]
          exact List.prefix_append ..
        · rw [h.polled, h.later, List.nil_append, List.take_of_length_le (by omega)]

end Run

end ListenerState

/-- **The listener forwards every event if and only if nothing falls into a gap of its `"$"`.** From any
stream and with any interleaving: the events appended after its first `XREAD` are handed on in order,
each exactly once, as far as the polls have come, and all of them when the polls catch up, exactly when
nothing was appended between two polls that both ask for `"$"` and no poll that asks for it has failed
with something to return. -/
theorem run_forwards_iff (serialize : ExecutionEvent → String)
    (parse : String → Option ExecutionEvent) (stream : ExecutionStream)
    (hordered : Ordered .zero stream) (actions : List ListenerAction)
    (hserde : ∀ id event, .append id event ∈ actions → parse (serialize event) = some event) :
    ((ListenerState.init stream).run serialize parse actions).Forwards parse serialize ↔
      (ListenerState.init stream).AllGapless serialize parse actions := by
  have hinit : ListenerState.Tracks parse (.init stream) [] := .closed hordered rfl rfl rfl rfl
  obtain ⟨lost, htracks, hgapless⟩ := hinit.run hserde
  rw [List.nil_append] at htracks
  rw [htracks.forwards_iff, hgapless]

instance (s : ListenerState) : Decidable s.InGap :=
  inferInstanceAs (Decidable (s.opened ≠ none ∧ s.lastId = none ∧ s.reading = none))

instance (s : ListenerState) : DecidablePred s.Gapless
  | .append id _ => inferInstanceAs (Decidable (Log.lastId .zero s.stream < id → ¬ s.InGap))
  | .fail => inferInstanceAs (Decidable (s.lastId = none → ∀ id ∈ s.reading, since id s.stream = []))
  | .poll | .reply _ _ | .timeout => inferInstanceAs (Decidable True)

/-- A cancelled order, and its `data` as the engine writes it. -/
def cancelledOrder (orderId : Nat) : ExecutionEvent := .orderCancelled orderId 7 5

def cancelledData : ExecutionEvent → String
  | .orderCancelled orderId userId remainingQty =>
      "\x7b\"type\":\"order_cancelled\",\"order_id\":" ++ toString orderId ++ ",\"user_id\":"
        ++ toString userId ++ ",\"remaining_qty\":" ++ toString remainingQty ++ "\x7d"
  | _ => ""

def parseCancelled (data : String) : Option ExecutionEvent :=
  ([1, 2, 3].map cancelledOrder).find? fun event => cancelledData event = data

/-- The first event finds a poll waiting. Two more come while the listener sleeps, one of them after a
poll that has failed. -/
def punctual : List ListenerAction :=
  [.poll, .timeout, .poll, .append (toLex (1, 0)) (cancelledOrder 1), .reply 100 (fun _ => 0),
    .append (toLex (2, 0)) (cancelledOrder 2), .poll, .fail,
    .append (toLex (3, 0)) (cancelledOrder 3), .poll, .reply 1 (fun _ => 0)]

theorem run_forwards_punctual :
    ((ListenerState.init []).run cancelledData parseCancelled punctual).Forwards parseCancelled
        cancelledData ∧
      ((ListenerState.init []).run cancelledData parseCancelled punctual).handed.map Prod.snd
        = [cancelledOrder 1, cancelledOrder 2] := by
  have hserde : ∀ id event, .append id event ∈ punctual →
      parseCancelled (cancelledData event) = some event := by
    intro id event hmem
    simp only [punctual, List.mem_cons, reduceCtorEq, ListenerAction.append.injEq, List.not_mem_nil,
      false_or, or_false] at hmem
    rcases hmem with ⟨_, rfl⟩ | ⟨_, rfl⟩ | ⟨_, rfl⟩ <;> decide +kernel
  exact ⟨(run_forwards_iff cancelledData parseCancelled [] ⟨List.Pairwise.nil, by simp⟩ punctual
    hserde).mpr (by decide +kernel), by decide +kernel⟩

/-- The first poll times out, and an event comes before the second. -/
def missed : List ListenerAction :=
  [.poll, .timeout, .append (toLex (1, 0)) (cancelledOrder 1), .poll,
    .append (toLex (2, 0)) (cancelledOrder 2), .reply 100 (fun _ => 0)]

/-- The hub is called for the next event and not for this one. -/
theorem missed_forwards_not :
    ∃ s, s = (ListenerState.init []).run cancelledData parseCancelled missed ∧
      s.later parseCancelled = [cancelledOrder 1, cancelledOrder 2] ∧
      s.sent .ascii = forward .ascii 0 (cancelledOrder 2) ∧ ¬ s.Forwards parseCancelled cancelledData := by
  refine ⟨_, rfl, by decide +kernel, by decide +kernel, fun hforwards => ?_⟩
  have hprefix := hforwards.1
  revert hprefix
  decide +kernel

end CexRs
