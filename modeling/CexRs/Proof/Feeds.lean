import CexRs.Proof.Sessions

/-!
# What a client is sent

The answers to a client's texts reach it in the order of the texts. Of the messages that the listener
has handed out to a topic, or to a user, it gets all while it stands there and none while it does not, in
their order; since only the client itself can change that, this is shown on its own view of the server.
-/

namespace CexRs

open SetIndex OrderedMap

def Frame.answer? : Frame → Option WsAnswer
  | .answer a => some a
  | .pushed _ _ => none

def Frame.to? (recipient : Recipient) : Frame → Option WsServerMsg
  | .answer _ => none
  | .pushed r msg => if r = recipient then some msg else none

namespace SessionIo

variable (io : SessionIo)

def frames : List Frame := io.written ++ io.channel

def answers : List WsAnswer := io.frames.filterMap Frame.answer? ++ io.owed.toList

/-- What has come by way of a topic, or of a user. -/
def feed (recipient : Recipient) : List WsServerMsg := io.frames.filterMap (Frame.to? recipient)

/-- Writing the next frame leaves the frames in place. -/
theorem frames_write : SessionIo.frames { io with
    channel := io.channel.tail, written := io.written ++ io.channel.head?.toList } = io.frames := by
  unfold frames
  cases io.channel with
  | nil => simp
  | cons frame rest => simp

theorem frames_push (frame : Frame) :
    SessionIo.frames { io with channel := io.channel ++ [frame] } = io.frames ++ [frame] := by
  simp [frames]

variable (recipient : Recipient)

theorem feed_push (frame : Frame) :
    SessionIo.feed { io with channel := io.channel ++ [frame] } recipient
      = io.feed recipient ++ (frame.to? recipient).toList := by
  unfold feed
  rw [frames_push, List.filterMap_append]
  cases hframe : frame.to? recipient <;> simp [hframe]

theorem feed_write : SessionIo.feed { io with
    channel := io.channel.tail, written := io.written ++ io.channel.head?.toList } recipient
      = io.feed recipient := by
  rw [feed, frames_write, feed]

end SessionIo

/-! ### Standings that fit -/

/-- A session that has called `register`, and not yet `unregister`, is registered; one that has not, and
one that is on its way out, stands under no topic. -/
def Standing.Fits (v : Standing) : Prop :=
  match v.phase with
  | some .idle | some (.authenticating _) => v.trace.session ≠ none
  | some (.leavingTopics _) => v.trace.session = none
  | none | some .registering | some (.leavingUser _) | some .gone =>
      v.trace.session = none ∧ v.trace.topics = ∅

theorem Standing.Fits.call {v : Standing} (h : v.Fits) (hidle : v.phase = some .idle) (call : Call) :
    (v.call call).Fits := by
  have hsession : v.trace.session ≠ none := by
    unfold Standing.Fits at h
    rw [hidle] at h
    exact h
  cases call with
  | subscribe topic =>
      unfold Standing.Fits
      simp only [Standing.call, Standing.withTopics, hidle]
      exact hsession
  | unsubscribe topic =>
      unfold Standing.Fits
      simp only [Standing.call, Standing.withTopics, hidle]
      exact hsession
  | authenticate userId => simpa [Standing.Fits, Standing.call] using hsession
  | unregister => simp [Standing.Fits, Standing.call]

theorem Standing.Fits.proceed {v : Standing} (h : v.Fits) : v.proceed.Fits := by
  obtain ⟨trace, phase⟩ := v
  cases phase with
  | none => exact h
  | some phase =>
      cases phase with
      | registering => simp [Standing.proceed, Standing.Fits]
      | idle => exact h
      | authenticating userId => exact h
      | leavingTopics userId =>
          have hsession : trace.session = none := h
          cases userId <;> simp [Standing.proceed, Standing.Fits, hsession]
      | leavingUser userId => exact h
      | gone => exact h

namespace WsServer

variable (format : WsFormat) (c : ClientId)

structure View.Sane (v : View) : Prop where
  fits : v.standing.Fits
  fresh : v.nextClientId ≤ c → v.standing.phase = none

variable {c} {v : View}

theorem View.Sane.step (h : v.Sane c) {action : ServerAction} :
    (v.step format c action).Sane c := by
  have hsame : ∀ io caught, View.Sane c { v with io, caught } := fun _ _ => ⟨h.fits, h.fresh⟩
  have hdrawn : ∀ {phase}, v.standing.phase = some phase → c < v.nextClientId := by
    intro phase hphase
    by_contra hle
    simp [h.fresh (not_lt.mp hle)] at hphase
  cases action with
  | connect =>
      simp only [View.step]
      split
      · next hc =>
        have hphase := h.fresh (le_of_eq hc.symm)
        have hfits := h.fits
        unfold Standing.Fits at hfits
        rw [hphase] at hfits
        exact ⟨hfits, fun hle => absurd hle (by simp [hc])⟩
      · exact ⟨h.fits, fun hle => h.fresh (Nat.le_of_succ_le hle)⟩
  | proceed clientId =>
      refine ⟨h.fits.proceed, fun hle => ?_⟩
      have hphase := h.fresh hle
      simp [View.step, Standing.proceed, hphase]
  | read clientId now text =>
      simp only [View.step]
      split
      · next hidle =>
        cases (format.respond now text).1 with
        | none => exact ⟨h.fits, h.fresh⟩
        | some call =>
            exact ⟨h.fits.call hidle.1 call, fun hle => absurd hle (not_le.mpr (hdrawn hidle.1))⟩
      · exact h
  | answer clientId =>
      simp only [View.step]
      split
      · exact hsame _ _
      · exact h
  | write clientId =>
      simp only [View.step]
      split
      · exact hsame _ _
      · exact h
  | leave clientId =>
      simp only [View.step]
      split
      · next hidle =>
        exact ⟨h.fits.call hidle.1 .unregister, fun hle => absurd hle (not_le.mpr (hdrawn hidle.1))⟩
      · exact h
  | broadcast recipient msg =>
      simp only [View.step]
      split
      · exact hsame _ _
      · exact h
  | deliver =>
      simp only [View.step]
      split
      · exact h
      · exact hsame _ _

theorem sane_init (c : ClientId) : (init.view c).Sane c := by
  have hstanding : (init.view c).standing = .blank := by
    ext1
    · exact BroadcasterHub.trace_new c
    · simp [view, WsGateway.standing, init, WsGateway.init, Standing.blank]
  refine ⟨?_, fun _ => ?_⟩
  · rw [hstanding]
    exact ⟨rfl, rfl⟩
  · rw [hstanding]
    rfl

theorem sane_step {s : WsServer} (h : (s.view c).Sane c) (action : ServerAction) :
    ((s.step format action).view c).Sane c := by
  rw [view_step]
  split
  · exact h.step format
  · exact h

theorem sane_run (c : ClientId) (actions : List ServerAction) :
    ((init.run format actions).view c).Sane c := by
  have hrun : ∀ s : WsServer, (s.view c).Sane c → ((s.run format actions).view c).Sane c := by
    induction actions with
    | nil => exact fun s h => h
    | cons action actions ih => exact fun s h => ih _ (sane_step format h action)
  exact hrun init (sane_init c)

/-! ### Answers -/

section Answers

variable (c)

def response (s : WsServer) : ServerAction → List WsAnswer
  | .read clientId now text =>
      if clientId = c ∧ s.listens c then [(format.respond now text).2] else []
  | _ => []

def responses (s : WsServer) : List ServerAction → List WsAnswer
  | [] => []
  | action :: actions => s.response format c action ++ (s.step format action).responses actions

variable {c}

theorem View.Sane.answer (h : v.Sane c) (clientId : ClientId) :
    (v.step format c (.answer clientId)).io.answers = v.io.answers := by
  simp only [View.step]
  split
  · next answer hidle howed =>
    have hsession : v.standing.trace.session ≠ none := by
      have hfits := h.fits
      unfold Standing.Fits at hfits
      rw [hidle] at hfits
      exact hfits
    rw [if_pos hsession]
    simp [SessionIo.answers, SessionIo.frames, howed, Frame.answer?]
  · rfl

theorem answers_step {s : WsServer} (h : (s.view c).Sane c) (action : ServerAction) :
    ((s.step format action).io c).answers = (s.io c).answers ++ s.response format c action := by
  have hio : ∀ s : WsServer, s.io c = (s.view c).io := fun _ => rfl
  rw [hio, hio, view_step]
  split
  · next hconcerns =>
    have hdone : s.response format c action = [] →
        ((s.view c).step format c action).io.answers = (s.view c).io.answers →
        ((s.view c).step format c action).io.answers
          = (s.view c).io.answers ++ s.response format c action := by
      intro hnone hsame
      rw [hnone, List.append_nil, hsame]
    cases action with
    | connect => exact hdone rfl rfl
    | proceed clientId => exact hdone rfl rfl
    | read clientId now text =>
        have hc : clientId = c := of_decide_eq_true hconcerns
        have hlistens : s.listens c = true ↔
            (s.view c).standing.phase = some .idle ∧ (s.view c).io.owed = none := by
          rw [listens_eq, Bool.and_eq_true, decide_eq_true_eq, Option.isNone_iff_eq_none]
        simp only [View.step, response, hc, hlistens, true_and]
        split
        · next hidle => simp [SessionIo.answers, SessionIo.frames, hidle.2]
        · simp
    | answer clientId => exact hdone rfl (h.answer format clientId)
    | write clientId =>
        refine hdone rfl ?_
        simp only [View.step]
        split
        · simp only [SessionIo.answers, SessionIo.frames_write]
        · rfl
    | leave clientId =>
        refine hdone rfl ?_
        simp only [View.step]
        split <;> rfl
    | broadcast recipient msg =>
        refine hdone rfl ?_
        simp only [View.step]
        split <;> rfl
    | deliver =>
        refine hdone rfl ?_
        simp only [View.step]
        split
        · rfl
        · split
          · simp [SessionIo.answers, SessionIo.frames, Frame.answer?]
          · rfl
  · next hconcerns =>
    have hnone : s.response format c action = [] := by
      cases action with
      | read clientId now text =>
          have hc : clientId ≠ c := by simpa [concerns] using hconcerns
          simp [response, hc]
      | _ => rfl
    rw [hnone, List.append_nil]

end Answers

end WsServer

/-- **Answers come in order.** However the sessions and the listener interleave: the answers that have
been put into a client's channel, with the one that is about to be, are those to the texts that its session
has read, one for each and in their order, whatever the listener puts between them. -/
theorem run_answers_in_order (format : WsFormat) (c : ClientId) (actions : List ServerAction) :
    ((WsServer.init.run format actions).io c).answers
      = WsServer.init.responses format c actions := by
  have hrun : ∀ s : WsServer, (s.view c).Sane c →
      ((s.run format actions).io c).answers = (s.io c).answers ++ s.responses format c actions := by
    induction actions with
    | nil => exact fun s _ => (List.append_nil _).symm
    | cons action actions ih =>
        intro s h
        change (((s.step format action).run format actions).io c).answers = _
        rw [ih _ (WsServer.sane_step format h action), WsServer.answers_step format h action,
          WsServer.responses, List.append_assoc]
  exact hrun WsServer.init (WsServer.sane_init c)

/-! ### Feeds -/

def Call.Enters : Recipient → Call → Prop
  | .topic name, call => call = .subscribe name
  | .user userId, call => call = .authenticate userId

def Call.Quits : Recipient → Call → Prop
  | .topic name, call => call = .unsubscribe name ∨ call = .unregister
  | .user _, call => call = .unregister

namespace WsServer

variable (format : WsFormat) (c : ClientId) (recipient : Recipient)

def delivery (s : WsServer) : ServerAction → List WsServerMsg
  | .deliver => (s.broadcast.toList.filter (·.1 = recipient)).map (·.2.1)
  | _ => []

def deliveries (s : WsServer) : List ServerAction → List WsServerMsg
  | [] => []
  | action :: actions => s.delivery recipient action ++ (s.step format action).deliveries actions

def calls : ServerAction → Option (ClientId × Call)
  | .read clientId now text => (format.respond now text).1.map (clientId, ·)
  | .leave clientId => some (clientId, .unregister)
  | _ => none

def Keeps (action : ServerAction) : Prop :=
  ∀ call, calls format action = some (c, call) → ¬ call.Quits recipient

def Declines (action : ServerAction) : Prop :=
  ∀ call, calls format action = some (c, call) → ¬ call.Enters recipient

/-- The client is registered and stands under the recipient, and it did when the message under way was
taken on. -/
structure View.Tuned (v : View) : Prop where
  session : v.standing.trace.session ≠ none
  reached : recipient.Reaches v.standing
  caught : ∀ msg noted, v.caught = some (recipient, msg, noted) → noted

/-- The client does not stand under the recipient, is not on its way there, and did not stand there when
the message under way was taken on. -/
structure View.Deaf (v : View) : Prop where
  unreached : ¬ recipient.Reaches v.standing
  pending : ∀ userId, v.standing.phase = some (.authenticating userId) → recipient ≠ .user userId
  caught : ∀ msg noted, v.caught = some (recipient, msg, noted) → ¬ noted

variable {format c recipient} {v : View}

theorem View.Tuned.call (h : v.Tuned recipient) {call : Call} (hquits : ¬ call.Quits recipient)
    {io : SessionIo} : View.Tuned recipient { v with standing := v.standing.call call, io } := by
  obtain ⟨hsession, hreached, hcaught⟩ := h
  have hunregister : call ≠ .unregister := by
    rintro rfl
    cases recipient with
    | topic name => exact hquits (.inr rfl)
    | user userId => exact hquits rfl
  refine ⟨?_, ?_, hcaught⟩
  · cases call with
    | unregister => exact absurd rfl hunregister
    | authenticate userId => simpa [Standing.call] using hsession
    | _ => exact hsession
  · cases recipient with
    | user userId => cases call <;> exact hreached
    | topic name =>
        cases call with
        | subscribe topic => exact Set.mem_insert_of_mem _ hreached
        | unsubscribe topic =>
            refine ⟨hreached, fun heq => hquits (.inl ?_)⟩
            exact congrArg Call.unsubscribe (Set.mem_singleton_iff.mp heq).symm
        | _ => exact hreached

theorem View.Deaf.call (h : v.Deaf recipient) (hidle : v.standing.phase = some .idle) {call : Call}
    (henters : ¬ call.Enters recipient) {io : SessionIo} :
    View.Deaf recipient { v with standing := v.standing.call call, io } := by
  obtain ⟨hunreached, hpending, hcaught⟩ := h
  refine ⟨fun hreached => hunreached ?_, fun userId hphase heq => ?_, hcaught⟩
  · cases recipient with
    | user userId => cases call <;> exact hreached
    | topic name =>
        cases call with
        | subscribe topic =>
            rcases Set.mem_insert_iff.mp hreached with heq | hmem
            · exact absurd (congrArg Call.subscribe heq.symm) henters
            · exact hmem
        | unsubscribe topic => exact hreached.1
        | _ => exact hreached
  · subst heq
    cases call with
    | authenticate user =>
        simp only [Standing.call, Option.some.injEq, Phase.authenticating.injEq] at hphase
        exact henters (congrArg Call.authenticate hphase)
    | unregister => simp [Standing.call] at hphase
    | _ => simp [Standing.call, Standing.withTopics, hidle] at hphase

/-- What the server's delivery is from where the client stands. -/
theorem delivery_eq (s : WsServer) (c : ClientId) : s.delivery recipient .deliver
    = ((s.view c).caught.toList.filter (·.1 = recipient)).map (·.2.1) := by
  have hcaught : (s.view c).caught = s.caught c := rfl
  rw [hcaught]
  unfold delivery caught
  cases s.broadcast with
  | none => rfl
  | some broadcast =>
      obtain ⟨r, msg, clients⟩ := broadcast
      by_cases hr : r = recipient <;> simp [hr]

theorem delivery_of_not_concerns (s : WsServer) {action : ServerAction}
    (h : ¬ concerns c action = true) : s.delivery recipient action = [] := by
  cases action with
  | deliver => exact absurd rfl h
  | _ => rfl

/-- A client that is tuned in stays so, and gets what is delivered. -/
theorem tuned_step {s : WsServer} (hsane : (s.view c).Sane c) (h : (s.view c).Tuned recipient)
    {action : ServerAction} (hkeeps : Keeps format c recipient action) :
    ((s.step format action).view c).Tuned recipient ∧ ((s.step format action).io c).feed recipient
      = (s.io c).feed recipient ++ s.delivery recipient action := by
  have hio : ∀ s : WsServer, s.io c = (s.view c).io := fun _ => rfl
  rw [hio, hio, view_step]
  split
  · next hconcerns =>
    cases action with
    | connect =>
        refine ⟨?_, (List.append_nil _).symm⟩
        simp only [View.step]
        split
        · refine ⟨h.session, ?_, h.caught⟩
          cases recipient <;> exact h.reached
        · exact ⟨h.session, h.reached, h.caught⟩
    | proceed clientId =>
        refine ⟨?_, (List.append_nil _).symm⟩
        have hfits := hsane.fits
        unfold Standing.Fits at hfits
        simp only [View.step, Standing.proceed]
        split
        · next hphase =>
          rw [hphase] at hfits
          exact absurd hfits.1 h.session
        · refine ⟨h.session, ?_, h.caught⟩
          cases recipient with
          | topic name => exact h.reached
          | user userId => exact Set.mem_insert_of_mem _ h.reached
        · next hphase =>
          rw [hphase] at hfits
          exact absurd hfits h.session
        · next hphase =>
          rw [hphase] at hfits
          exact absurd hfits.1 h.session
        · exact ⟨h.session, h.reached, h.caught⟩
    | read clientId now text =>
        have hc : clientId = c := of_decide_eq_true hconcerns
        simp only [View.step]
        split
        · cases hcall : (format.respond now text).1 with
          | none => exact ⟨⟨h.session, h.reached, h.caught⟩, (List.append_nil _).symm⟩
          | some call =>
              have hquits : ¬ call.Quits recipient := hkeeps call (by simp [calls, hcall, hc])
              exact ⟨h.call hquits, (List.append_nil _).symm⟩
        · exact ⟨h, (List.append_nil _).symm⟩
    | answer clientId =>
        simp only [View.step]
        split
        · refine ⟨⟨h.session, h.reached, h.caught⟩, ?_⟩
          rw [if_pos h.session]
          exact (s.view c).io.feed_push recipient _
        · exact ⟨h, (List.append_nil _).symm⟩
    | write clientId =>
        simp only [View.step]
        split
        · exact ⟨⟨h.session, h.reached, h.caught⟩,
            ((s.view c).io.feed_write recipient).trans (List.append_nil _).symm⟩
        · exact ⟨h, (List.append_nil _).symm⟩
    | leave clientId =>
        have hc : clientId = c := of_decide_eq_true hconcerns
        refine absurd ?_ (hkeeps .unregister (by simp [calls, hc]))
        cases recipient with
        | topic name => exact .inr rfl
        | user userId => rfl
    | broadcast r msg =>
        simp only [View.step]
        split
        · refine ⟨⟨h.session, h.reached, fun msg' noted heq => ?_⟩, (List.append_nil _).symm⟩
          cases heq
          exact h.reached
        · exact ⟨h, (List.append_nil _).symm⟩
    | deliver =>
        rw [delivery_eq s c]
        simp only [View.step]
        cases hcaught : (s.view c).caught with
        | none => exact ⟨h, (List.append_nil _).symm⟩
        | some caught =>
            obtain ⟨r, msg, noted⟩ := caught
            refine ⟨⟨h.session, h.reached, fun _ _ heq => by cases heq⟩, ?_⟩
            dsimp only
            by_cases hr : r = recipient
            · subst hr
              rw [if_pos ⟨h.caught msg noted hcaught, h.session⟩, (s.view c).io.feed_push]
              simp [Frame.to?]
            · split
              · rw [(s.view c).io.feed_push]
                simp [Frame.to?, hr]
              · simp [hr]
  · next hconcerns =>
    rw [delivery_of_not_concerns s hconcerns]
    exact ⟨h, (List.append_nil _).symm⟩

/-- A client that does not stand under the recipient gets none of what is delivered there. -/
theorem deaf_step {s : WsServer} (h : (s.view c).Deaf recipient) {action : ServerAction}
    (hdeclines : Declines format c recipient action) :
    ((s.step format action).view c).Deaf recipient ∧
      ((s.step format action).io c).feed recipient = (s.io c).feed recipient := by
  have hio : ∀ s : WsServer, s.io c = (s.view c).io := fun _ => rfl
  rw [hio, hio, view_step]
  split
  · next hconcerns =>
    cases action with
    | connect =>
        refine ⟨?_, rfl⟩
        simp only [View.step]
        split
        · refine ⟨?_, fun userId hphase => by simp at hphase, h.caught⟩
          cases recipient <;> exact h.unreached
        · exact ⟨h.unreached, h.pending, h.caught⟩
    | proceed clientId =>
        refine ⟨?_, rfl⟩
        simp only [View.step, Standing.proceed]
        split
        · refine ⟨?_, fun userId hphase => by simp at hphase, h.caught⟩
          cases recipient <;> exact h.unreached
        · next user hphase =>
          refine ⟨?_, fun userId hphase => by simp at hphase, h.caught⟩
          cases recipient with
          | topic name => exact h.unreached
          | user userId =>
              intro hreached
              rcases Set.mem_insert_iff.mp hreached with heq | hmem
              · exact h.pending user hphase (congrArg Recipient.user heq)
              · exact h.unreached hmem
        · next user hphase =>
          refine ⟨?_, fun userId hphase => by cases user <;> simp at hphase, h.caught⟩
          cases recipient with
          | topic name => exact fun hreached => hreached.elim
          | user userId => exact h.unreached
        · refine ⟨?_, fun userId hphase => by simp at hphase, h.caught⟩
          cases recipient with
          | topic name => exact h.unreached
          | user userId => exact fun hreached => h.unreached hreached.1
        · exact ⟨h.unreached, h.pending, h.caught⟩
    | read clientId now text =>
        have hc : clientId = c := of_decide_eq_true hconcerns
        simp only [View.step]
        split
        · next hidle =>
          cases hcall : (format.respond now text).1 with
          | none => exact ⟨⟨h.unreached, h.pending, h.caught⟩, rfl⟩
          | some call =>
              have henters : ¬ call.Enters recipient := hdeclines call (by simp [calls, hcall, hc])
              exact ⟨h.call hidle.1 henters, rfl⟩
        · exact ⟨h, rfl⟩
    | answer clientId =>
        simp only [View.step]
        split
        · refine ⟨⟨h.unreached, h.pending, h.caught⟩, ?_⟩
          split
          · exact ((s.view c).io.feed_push recipient _).trans (List.append_nil _)
          · rfl
        · exact ⟨h, rfl⟩
    | write clientId =>
        simp only [View.step]
        split
        · exact ⟨⟨h.unreached, h.pending, h.caught⟩, (s.view c).io.feed_write recipient⟩
        · exact ⟨h, rfl⟩
    | leave clientId =>
        simp only [View.step]
        split
        · next hidle =>
          refine ⟨h.call hidle.1 ?_, rfl⟩
          cases recipient <;> simp [Call.Enters]
        · exact ⟨h, rfl⟩
    | broadcast r msg =>
        simp only [View.step]
        split
        · refine ⟨⟨h.unreached, h.pending, fun msg' noted heq => ?_⟩, rfl⟩
          cases heq
          exact h.unreached
        · exact ⟨h, rfl⟩
    | deliver =>
        simp only [View.step]
        cases hcaught : (s.view c).caught with
        | none => exact ⟨h, rfl⟩
        | some caught =>
            obtain ⟨r, msg, noted⟩ := caught
            refine ⟨⟨h.unreached, h.pending, fun _ _ heq => by cases heq⟩, ?_⟩
            dsimp only
            split
            · next hnoted =>
              have hr : r ≠ recipient := by
                rintro rfl
                exact h.caught msg noted hcaught hnoted.1
              rw [(s.view c).io.feed_push]
              simp [Frame.to?, hr]
            · rfl
  · exact ⟨h, rfl⟩

theorem tuned_run {actions : List ServerAction}
    (hkeeps : ∀ action ∈ actions, Keeps format c recipient action) (s : WsServer)
    (hsane : (s.view c).Sane c) (h : (s.view c).Tuned recipient) :
    ((s.run format actions).io c).feed recipient
      = (s.io c).feed recipient ++ s.deliveries format recipient actions := by
  induction actions generalizing s with
  | nil => exact (List.append_nil _).symm
  | cons action actions ih =>
      have hstep := tuned_step hsane h (hkeeps action List.mem_cons_self)
      change (((s.step format action).run format actions).io c).feed recipient = _
      rw [ih (fun a ha => hkeeps a (List.mem_cons_of_mem _ ha)) _ (sane_step format hsane action) hstep.1,
        hstep.2, deliveries, List.append_assoc]

theorem deaf_run {actions : List ServerAction}
    (hdeclines : ∀ action ∈ actions, Declines format c recipient action) (s : WsServer)
    (h : (s.view c).Deaf recipient) :
    ((s.run format actions).io c).feed recipient = (s.io c).feed recipient := by
  induction actions generalizing s with
  | nil => rfl
  | cons action actions ih =>
      have hstep := deaf_step h (hdeclines action List.mem_cons_self)
      exact (ih (fun a ha => hdeclines a (List.mem_cons_of_mem _ ha)) _ hstep.1).trans hstep.2

def noted (recipient : Recipient) (s : WsServer) : Option (Finset ClientId) :=
  (s.broadcast.filter (·.1 = recipient)).map (·.2.2)

theorem caught_of_noted {s : WsServer} {clients : Finset ClientId → Prop}
    (h : ∀ noted ∈ s.noted recipient, clients noted) {msg : WsServerMsg} {noted : Prop}
    (hcaught : (s.view c).caught = some (recipient, msg, noted)) :
    ∃ noted' : Finset ClientId, clients noted' ∧ noted = (c ∈ noted') := by
  have hview : (s.view c).caught = s.caught c := rfl
  rw [hview, caught] at hcaught
  obtain ⟨⟨r, msg', clients'⟩, hbroadcast, heq⟩ := Option.map_eq_some_iff.mp hcaught
  cases heq
  exact ⟨clients', h clients' (by simp [WsServer.noted, hbroadcast]), rfl⟩

end WsServer

/-- **A feed is complete, and ends.** However the sessions and the listener interleave, from whatever
state they have come to: as long as a client stands under a topic or a user, what is handed out there goes
into its channel, each message once and in order; and as long as it does not, none of it does. -/
theorem run_feed (format : WsFormat) (c : ClientId) (recipient : Recipient)
    (before actions : List ServerAction) :
    let s := WsServer.init.run format before
    let s' := s.run format actions
    (c ∈ s.gateway.hub.clients → c ∈ s.subscribers recipient →
      (∀ noted ∈ s.noted recipient, c ∈ noted) →
      (∀ action ∈ actions, WsServer.Keeps format c recipient action) →
      (s'.io c).feed recipient
        = (s.io c).feed recipient ++ s.deliveries format recipient actions) ∧
    (c ∉ s.subscribers recipient →
      (∀ userId, s.gateway.sessions[c]? = some (.authenticating userId) → recipient ≠ .user userId) →
      (∀ noted ∈ s.noted recipient, c ∉ noted) →
      (∀ action ∈ actions, WsServer.Declines format c recipient action) →
      (s'.io c).feed recipient = (s.io c).feed recipient) := by
  intro s s'
  constructor
  · intro hclient hsubscribed hnoted hkeeps
    refine WsServer.tuned_run hkeeps s (WsServer.sane_run format c before) ⟨?_, ?_, ?_⟩
    · exact (WsServer.mem_clients_iff c).mp hclient
    · exact (WsServer.mem_subscribers c recipient).mp hsubscribed
    · intro msg noted hcaught
      obtain ⟨clients, hmem, rfl⟩ := WsServer.caught_of_noted hnoted hcaught
      exact hmem
  · intro hsubscribed hpending hnoted hdeclines
    refine WsServer.deaf_run hdeclines s ⟨?_, hpending, ?_⟩
    · exact mt (WsServer.mem_subscribers c recipient).mpr hsubscribed
    · intro msg noted hcaught
      obtain ⟨clients, hmem, rfl⟩ := WsServer.caught_of_noted hnoted hcaught
      exact hmem

def subscription : String := "\x7b\"op\":\"subscribe\",\"channel\":\"Trades\",\"market\":\"sol_usd\"\x7d"

def spotFormat : WsFormat where
  toCasing := .ascii
  parse text :=
    if text = subscription then .ok (.subscribe "Trades" (some "sol_usd"))
    else .error "expected value at line 1 column 1"
  verify _ _ := none

def spotBefore : List ServerAction := [.connect, .connect, .proceed 2, .proceed 1]

/-- A trade is handed out after the first has subscribed, and the second reads a text between the locks. -/
def spotHandout : List ServerAction :=
  [.answer 1, .broadcast (.topic "trades:SOL_USD") (.trade "SOL_USD" 1 2 100 5 500 0), .read 2 0 "hello",
    .deliver, .write 1]

theorem calls_spotHandout : ∀ action ∈ spotHandout, WsServer.calls spotFormat action = none := by
  decide +kernel

theorem run_feed_spot :
    let s := (WsServer.init.run spotFormat (spotBefore ++ [.read 1 0 subscription])).run spotFormat
      spotHandout
    (s.io 1).feed (.topic "trades:SOL_USD") = [.trade "SOL_USD" 1 2 100 5 500 0] ∧
      (s.io 2).feed (.topic "trades:SOL_USD") = [] := by
  intro s
  have hnone : ∀ c action, action ∈ spotHandout → ∀ call,
      WsServer.calls spotFormat action ≠ some (c, call) := by
    intro c action hmem call
    rw [calls_spotHandout action hmem]
    exact Option.some_ne_none _ |>.symm
  have htuned := (run_feed spotFormat 1 (.topic "trades:SOL_USD")
    (spotBefore ++ [.read 1 0 subscription]) spotHandout).1 (by decide +kernel) (by decide +kernel)
    (by decide +kernel) fun action hmem call hcall => absurd hcall (hnone 1 action hmem call)
  have hdeaf := (run_feed spotFormat 2 (.topic "trades:SOL_USD")
    (spotBefore ++ [.read 1 0 subscription]) spotHandout).2 (by decide +kernel) (by simp)
    (by decide +kernel) fun action hmem call hcall => absurd hcall (hnone 2 action hmem call)
  exact ⟨htuned.trans (by decide +kernel), hdeaf.trans (by decide +kernel)⟩

/-! ### Markets -/

def ServerAction.ofListener : ServerAction → Bool
  | .broadcast _ _ | .deliver => true
  | _ => false

/-- What the loop of the listener does to send these messages. -/
def handingOut (sent : List (Recipient × WsServerMsg)) : List ServerAction :=
  sent.flatMap fun message => [.broadcast message.1 message.2, .deliver]

def marketMsg (casing : Casing) (channel market : String) (timestamp : Int) :
    ExecutionEvent → Option WsServerMsg
  | .tradeExecuted makerOrderId takerOrderId _ _ name price qty quoteAmount _ _ _ _ =>
      if channel = "trades" ∧ casing.uppercase name = market then
        some (.trade name makerOrderId takerOrderId price qty quoteAmount timestamp)
      else none
  | .depthUpdated name bids asks =>
      if channel = "depth" ∧ casing.uppercase name = market then some (.depth name bids asks) else none
  | _ => none

namespace WsServer

variable {format : WsFormat} {recipient : Recipient}

def underWay (s : WsServer) : Option (Recipient × WsServerMsg) :=
  s.broadcast.map fun broadcast => (broadcast.1, broadcast.2.1)

theorem broadcast_step (s : WsServer) {action : ServerAction} (h : action.ofListener = false) :
    (s.step format action).broadcast = s.broadcast := by
  cases action with
  | connect => rfl
  | proceed clientId => rfl
  | read clientId now text =>
      simp only [step]
      split
      · unfold handleText
        obtain ⟨call, answer⟩ := format.respond now text
        cases call <;> rfl
      · rfl
  | answer clientId =>
      simp only [step]
      split <;> rfl
  | write clientId =>
      simp only [step]
      split <;> rfl
  | leave clientId =>
      simp only [step]
      split <;> rfl
  | broadcast r msg => cases h
  | deliver => cases h

theorem delivery_of_session (s : WsServer) {action : ServerAction} (h : action.ofListener = false) :
    s.delivery recipient action = [] := by
  cases action with
  | deliver => cases h
  | _ => rfl

/-- However the sessions' actions fall between those of the listener, what is handed out is what it sends,
after the message under way. -/
theorem deliveries_eq (s : WsServer) (actions : List ServerAction)
    (sent : List (Recipient × WsServerMsg))
    (hlistener : actions.filter ServerAction.ofListener
      = (s.underWay.toList.map fun _ => .deliver) ++ handingOut sent) :
    s.deliveries format recipient actions
      = ((s.underWay.toList ++ sent).filter (·.1 = recipient)).map (·.2) := by
  induction actions generalizing s sent with
  | nil =>
      cases hway : s.underWay with
      | some message => simp [hway] at hlistener
      | none =>
          cases sent with
          | nil => rfl
          | cons message sent => simp [hway, handingOut] at hlistener
  | cons action actions ih =>
      cases hof : action.ofListener with
      | false =>
          have hway : (s.step format action).underWay = s.underWay := by
            rw [underWay, broadcast_step s hof, underWay]
          rw [List.filter_cons_of_neg (by simp [hof]), ← hway] at hlistener
          rw [deliveries, delivery_of_session s hof, List.nil_append, ih _ _ hlistener, hway]
      | true =>
          rw [List.filter_cons_of_pos hof] at hlistener
          cases hbroadcast : s.broadcast with
          | some broadcast =>
              obtain ⟨r, msg, clients⟩ := broadcast
              have hway : s.underWay = some (r, msg) := by simp [underWay, hbroadcast]
              rw [hway] at hlistener ⊢
              obtain ⟨rfl, hrest⟩ := List.cons.inj hlistener
              have hdone : (s.step format .deliver).underWay = none := by
                simp [underWay, step, hbroadcast]
              rw [deliveries, ih _ sent (by rw [hdone]; exact hrest), hdone]
              by_cases hr : r = recipient <;> simp [delivery, hbroadcast, hr]
          | none =>
              have hway : s.underWay = none := by simp [underWay, hbroadcast]
              rw [hway] at hlistener ⊢
              cases sent with
              | nil => cases hlistener
              | cons message sent =>
                  obtain ⟨rfl, hrest⟩ := List.cons.inj hlistener
                  have htaken : (s.step format (.broadcast message.1 message.2)).underWay
                      = some message := by simp [underWay, step, hbroadcast]
                  rw [deliveries, ih _ sent (by rw [htaken]; exact hrest), htaken]
                  rfl

end WsServer

section Market

variable (format : WsFormat) {channel market : String}

/-- The topic of a market's feed is the one that its subscribers are put under. -/
theorem forward_topic (hchannel : format.lowercase channel ∈ ["trades", "depth"]) (timestamp : Int)
    (event : ExecutionEvent) :
    ((forward format.toCasing timestamp event).filter
        (·.1 = .topic (format.formatTopic channel (some market)))).map (·.2)
      = (marketMsg format.toCasing (format.lowercase channel) (format.uppercase market) timestamp
        event).toList := by
  have hcolon : ∀ name : String, "trades:" ++ name ≠ "depth:" ++ format.uppercase market := by
    intro name heq
    have hhead := congrArg (fun text : String => text.toList.head?) heq
    simp at hhead
  have hcolon' : ∀ name : String, "depth:" ++ name ≠ "trades:" ++ format.uppercase market := by
    intro name heq
    have hhead := congrArg (fun text : String => text.toList.head?) heq
    simp at hhead
  have htrades : "trades" ++ ":" = "trades:" := rfl
  have hdepth : "depth" ++ ":" = "depth:" := rfl
  simp only [List.mem_cons, List.not_mem_nil, or_false] at hchannel
  rcases hchannel with hchannel | hchannel
  · cases event with
    | tradeExecuted makerOrderId takerOrderId buyerId sellerId name price qty quoteAmount =>
        simp only [forward, WsFormat.formatTopic, marketMsg, hchannel, htrades]
        by_cases hname : format.uppercase name = format.uppercase market <;> simp [hname]
    | depthUpdated name bids asks =>
        simp [forward, WsFormat.formatTopic, marketMsg, hchannel, htrades, hcolon']
    | _ => simp [forward, marketMsg]
  · cases event with
    | tradeExecuted makerOrderId takerOrderId buyerId sellerId name price qty quoteAmount =>
        simp [forward, WsFormat.formatTopic, marketMsg, hchannel, hdepth, hcolon]
    | depthUpdated name bids asks =>
        simp only [forward, WsFormat.formatTopic, marketMsg, hchannel, hdepth]
        by_cases hname : format.uppercase name = format.uppercase market <;> simp [hname]
    | _ => simp [forward, marketMsg]

namespace WsServer

variable {format} {c : ClientId} {s : WsServer} {now : Nat} {text topic : String}

/-- The first lock of the call puts a session that reads a subscription under the topic. -/
theorem tuned_of_subscribe (hsane : (s.view c).Sane c) (hlistens : s.listens c)
    (hrest : s.broadcast = none) (hrespond : (format.respond now text).1 = some (.subscribe topic)) :
    ((s.step format (.read c now text)).view c).Tuned (.topic topic) ∧
      ((s.step format (.read c now text)).io c).feed (.topic topic) = (s.io c).feed (.topic topic) ∧
      (s.step format (.read c now text)).underWay = none := by
  have hidle : (s.view c).standing.phase = some .idle ∧ (s.view c).io.owed = none := by
    rw [listens_eq, Bool.and_eq_true, decide_eq_true_eq, Option.isNone_iff_eq_none] at hlistens
    exact hlistens
  have hview : (s.step format (.read c now text)).view c = { s.view c with
      standing := (s.view c).standing.call (.subscribe topic)
      io := { (s.view c).io with owed := some (format.respond now text).2 } } := by
    rw [view_step, if_pos (by simp [concerns])]
    simp only [View.step, if_pos hidle, hrespond, Option.elim_some]
  have hcaught : s.caught c = none := by
    rw [WsServer.caught, hrest, Option.map_none]
  refine ⟨?_, congrArg (fun view => view.io.feed (.topic topic)) hview, ?_⟩
  · have hfits := hsane.fits
    unfold Standing.Fits at hfits
    rw [hidle.1] at hfits
    rw [hview]
    refine ⟨hfits, Set.mem_insert _ _, fun msg noted heq => ?_⟩
    rw [show (s.view c).caught = none from hcaught] at heq
    cases heq
  · rw [underWay, broadcast_step s rfl, hrest, Option.map_none]

/-- What a session that reads a subscription to a market is sent from then on. -/
theorem feed_market {actions : List ServerAction} {events : List (Int × ExecutionEvent)}
    (hsane : (s.view c).Sane c) (hlistens : s.listens c) (hrest : s.broadcast = none)
    (hparse : format.parse text = .ok (.subscribe channel (some market)))
    (hchannel : format.lowercase channel ∈ ["trades", "depth"])
    (hkeeps : ∀ action ∈ actions,
      Keeps format c (.topic (format.formatTopic channel (some market))) action)
    (hlistener : actions.filter ServerAction.ofListener
      = handingOut (events.flatMap fun event => forward format.toCasing event.1 event.2)) :
    ((s.run format (.read c now text :: actions)).io c).feed
        (.topic (format.formatTopic channel (some market)))
      = (s.io c).feed (.topic (format.formatTopic channel (some market)))
        ++ events.filterMap fun event =>
          marketMsg format.toCasing (format.lowercase channel) (format.uppercase market) event.1 event.2 := by
  have hrespond : (format.respond now text).1
      = some (.subscribe (format.formatTopic channel (some market))) := by
    simp [WsFormat.respond, hparse]
  obtain ⟨htuned, hfeed, hway⟩ := tuned_of_subscribe hsane hlistens hrest hrespond
  change (((s.step format (.read c now text)).run format actions).io c).feed _ = _
  rw [tuned_run hkeeps _ (sane_step format hsane _) htuned, hfeed,
    deliveries_eq _ actions _ (by rw [hway]; exact hlistener), hway]
  refine congrArg (_ ++ ·) ?_
  rw [Option.toList_none, List.nil_append, List.filterMap_eq_flatMap_toList, List.filter_flatMap,
    List.map_flatMap]
  simp only [forward_topic format hchannel]

end WsServer

end Market

/-- **A market's feed.** A client whose session reads a subscription to the trades or the depth of a
market, in whatever case, is sent that market's trades or depths, each once and in order, and nothing of
other markets, for the events that the listener reads from then on, until it unsubscribes or leaves. -/
theorem run_market_feed (format : WsFormat) (c : ClientId) (before actions : List ServerAction)
    (now : Nat) (text channel market : String) (events : List (Int × ExecutionEvent))
    (hlistens : (WsServer.init.run format before).listens c)
    (hrest : (WsServer.init.run format before).broadcast = none)
    (hparse : format.parse text = .ok (.subscribe channel (some market)))
    (hchannel : format.lowercase channel ∈ ["trades", "depth"])
    (hkeeps : ∀ action ∈ actions,
      WsServer.Keeps format c (.topic (format.formatTopic channel (some market))) action)
    (hlistener : actions.filter ServerAction.ofListener
      = handingOut (events.flatMap fun event => forward format.toCasing event.1 event.2)) :
    let s := WsServer.init.run format before
    let s' := s.run format (.read c now text :: actions)
    let recipient := .topic (format.formatTopic channel (some market))
    (s'.io c).feed recipient = (s.io c).feed recipient
      ++ events.filterMap fun event =>
        marketMsg format.toCasing (format.lowercase channel) (format.uppercase market) event.1 event.2 :=
  WsServer.feed_market (WsServer.sane_run format c before) hlistens hrest hparse hchannel hkeeps hlistener

def spotTrade (market : String) (price : Nat) : ExecutionEvent :=
  .tradeExecuted 1 2 7 8 market price 5 (price * 5) 0 0 0 0

def spotEvents : List (Int × ExecutionEvent) :=
  [(0, spotTrade "SOL_USD" 100), (1, .depthUpdated "SOL_USD" [] []), (2, spotTrade "BTC_USD" 900),
    (3, spotTrade "SOL_USD" 101)]

/-- The first sends itself its answer, and then writes after each lock of the listener; the second reads
a text that does not parse. -/
def spotActions : List ServerAction :=
  [.answer 1, .read 2 0 "hello", .answer 2]
    ++ (handingOut (spotEvents.flatMap fun event => forward .ascii event.1 event.2)).flatMap fun action =>
      [action, .write 1]

theorem calls_spotActions : ∀ action ∈ spotActions, WsServer.calls spotFormat action = none := by
  decide +kernel

theorem run_market_feed_spot :
    ((((WsServer.init.run spotFormat spotBefore).run spotFormat
      (.read 1 0 subscription :: spotActions)).io 1).feed (.topic "trades:SOL_USD"))
      = [.trade "SOL_USD" 1 2 100 5 500 0, .trade "SOL_USD" 1 2 101 5 505 3] := by
  have hkeeps : ∀ action ∈ spotActions, WsServer.Keeps spotFormat 1
      (.topic (spotFormat.formatTopic "Trades" (some "sol_usd"))) action := by
    intro action hmem call hcall
    rw [calls_spotActions action hmem] at hcall
    cases hcall
  have hfeed := run_market_feed spotFormat 1 spotBefore spotActions 0 subscription "Trades" "sol_usd"
    spotEvents (by decide +kernel) (by decide +kernel) (by decide +kernel) (by decide +kernel) hkeeps
    (by decide +kernel)
  have htopic : spotFormat.formatTopic "Trades" (some "sol_usd") = "trades:SOL_USD" := by decide +kernel
  rw [htopic] at hfeed
  exact hfeed.trans (by decide +kernel)

end CexRs
