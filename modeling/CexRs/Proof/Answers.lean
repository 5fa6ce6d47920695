import CexRs.Exchange

/-!
# Answers

Whatever the state and whatever the arithmetic, a handler that returns has published one reply: to the
queue that its message names, and with the identifier of the message. The rest of what it publishes are
events.
-/

namespace CexRs

open FixedWidth

/-! ### Replies among outputs -/

section Outputs

variable (queue queueId : String) (outputs outputs' : List Output)

@[simp] theorem repliesTo_nil : repliesTo queue [] = [] := rfl

@[simp] theorem repliesTo_append :
    repliesTo queue (outputs ++ outputs') = repliesTo queue outputs ++ repliesTo queue outputs' :=
  List.filterMap_append

@[simp] theorem repliesTo_execution (event : ExecutionEvent) :
    repliesTo queue (.execution event :: outputs) = repliesTo queue outputs := rfl

@[simp] theorem repliesTo_executions (events : List ExecutionEvent) :
    repliesTo queue (events.map .execution) = [] := by
  simp [repliesTo, List.filterMap_map]

@[simp] theorem repliesTo_replyTo (payload : Reply) :
    repliesTo queue (replyTo queueId payload :: outputs)
      = (if replyQueue queueId = queue then [payload] else []) ++ repliesTo queue outputs := by
  by_cases hqueue : replyQueue queueId = queue
  · have hname : "response-queue" ++ queueId = queue := hqueue
    simp [repliesTo, replyTo, hqueue, hname]
  · have hname : "response-queue" ++ queueId ≠ queue := hqueue
    simp [repliesTo, replyTo, hqueue, hname]

@[simp] theorem repliesTo_created (msg : OrderMsg) (p : Placement) :
    repliesTo queue (createdEvents msg p) = [] := by
  unfold createdEvents
  cases p.settlement.resting with
  | none => rfl
  | some accepted => rfl

def AnswersOnce (queueId identifier : String) (outputs : List Output) : Prop :=
  ∃ payload : Reply, payload.identifier = identifier ∧
    ∀ queue, repliesTo queue outputs = if replyQueue queueId = queue then [payload] else []

variable {queueId outputs outputs'} {identifier : String}

theorem answers_reply {payload : Reply} (hidentifier : payload.identifier = identifier)
    (hrest : ∀ queue, repliesTo queue outputs = []) :
    AnswersOnce queueId identifier (replyTo queueId payload :: outputs) := by
  refine ⟨payload, hidentifier, fun queue => ?_⟩
  rw [repliesTo_replyTo, hrest, List.append_nil]

theorem AnswersOnce.prepend (h : AnswersOnce queueId identifier outputs)
    (hbefore : ∀ queue, repliesTo queue outputs' = []) :
    AnswersOnce queueId identifier (outputs' ++ outputs) := by
  obtain ⟨payload, hidentifier, hreplies⟩ := h
  refine ⟨payload, hidentifier, fun queue => ?_⟩
  rw [repliesTo_append, hbefore, List.nil_append, hreplies]

theorem AnswersOnce.execution {event : ExecutionEvent} (h : AnswersOnce queueId identifier outputs) :
    AnswersOnce queueId identifier (.execution event :: outputs) := by
  change AnswersOnce queueId identifier ([.execution event] ++ outputs)
  exact h.prepend fun _ => rfl

theorem answers_single {payload : Reply} (hidentifier : payload.identifier = identifier) :
    AnswersOnce queueId identifier [replyTo queueId payload] :=
  answers_reply hidentifier fun _ => rfl

end Outputs

/-- Nothing is asked of a computation that faults. -/
theorem meets_anything {α : Type} (x : Except Fault α) : Meets (fun _ => True) x fun _ => True := by
  cases x <;> trivial

/-! ### Orders -/

section Order

variable (A : Arith) (s : EngineState) (builtins : Builtins) (msg : OrderMsg) (asset : Asset)
  (side : Side) (qty : Nat)

def Verdict.Replies (msg : OrderMsg) : Verdict → Prop
  | .refused _ reply => ∃ payload, reply = replyTo msg.queueId payload ∧
      payload.identifier = msg.identifier
  | .placed _ => True

theorem replies_error {allow : Fault → Prop} {s : EngineState} {msg : OrderMsg} {error : String}
    {code : Nat} : Meets allow
      (.ok (.refused s (replyError msg.queueId msg.identifier error code))) (Verdict.Replies msg) :=
  ⟨_, rfl, rfl⟩

theorem handleLimit_replies :
    Meets (fun _ => True) (handleLimit A s msg asset side qty) (Verdict.Replies msg) := by
  unfold handleLimit
  split
  · exact replies_error
  · refine (meets_anything _).bind fun _ _ => (meets_anything _).bind fun _ _ =>
      (meets_anything _).bind fun _ _ => ?_
    cases side with
    | bid =>
        refine (meets_anything _).bind fun r _ => ?_
        dsimp only
        split
        · exact replies_error
        · exact (meets_anything _).bind fun _ _ => trivial
    | ask =>
        refine (meets_anything _).bind fun r _ => ?_
        dsimp only
        split
        · exact replies_error
        · exact (meets_anything _).bind fun _ _ => trivial

theorem handleMarketSell_replies :
    Meets (fun _ => True) (handleMarketSell A s builtins msg asset qty) (Verdict.Replies msg) := by
  unfold handleMarketSell
  refine (meets_anything _).bind fun _ _ => ?_
  split
  · exact ⟨_, rfl, rfl⟩
  · refine (meets_anything _).bind fun r _ => ?_
    dsimp only
    split
    · exact replies_error
    · exact (meets_anything _).bind fun _ _ => (meets_anything _).bind fun _ _ =>
        (meets_anything _).bind fun _ _ => trivial

theorem handleMarketBuy_replies :
    Meets (fun _ => True) (handleMarketBuy A s builtins msg asset qty) (Verdict.Replies msg) := by
  unfold handleMarketBuy
  refine (meets_anything _).bind fun r _ => ?_
  dsimp only
  split
  · exact ⟨_, rfl, rfl⟩
  · split
    · exact replies_error
    · refine (meets_anything _).bind fun _ _ => (meets_anything _).bind fun _ _ =>
        (meets_anything _).bind fun r _ => ?_
      split
      · exact replies_error
      · exact (meets_anything _).bind fun _ _ => (meets_anything _).bind fun _ _ => trivial

theorem judgeOrder_replies :
    Meets (fun _ => True) (judgeOrder A s builtins msg) (Verdict.Replies msg) := by
  unfold judgeOrder
  dsimp only
  split
  · exact replies_error
  · split
    · exact replies_error
    · split
      · exact replies_error
      · split
        · exact handleLimit_replies A s msg _ _ _
        · exact handleMarketSell_replies A s builtins msg _ _
        · exact handleMarketBuy_replies A s builtins msg _ _

theorem depthEvent_execution : Meets (fun _ => True) (depthEvent A s asset) fun output =>
    ∃ event, output = .execution event :=
  (meets_anything _).bind fun _ _ => ⟨_, rfl⟩

theorem handleOrder_answers_once : Meets (fun _ => True) (handleOrder A s builtins msg) fun r =>
    AnswersOnce msg.queueId msg.identifier r.2 := by
  unfold handleOrder
  refine (judgeOrder_replies A s builtins msg).bind fun verdict hverdict => ?_
  cases verdict with
  | refused s' reply =>
      obtain ⟨payload, rfl, hidentifier⟩ := hverdict
      exact answers_single hidentifier
  | placed p =>
      refine (depthEvent_execution A p.state p.asset).bind ?_
      rintro _ ⟨event, rfl⟩
      refine meets_ok.mpr (AnswersOnce.prepend (answers_reply rfl fun _ => rfl) fun queue => ?_)
      rw [repliesTo_append, repliesTo_executions, repliesTo_created, List.append_nil]

end Order

/-! ### All messages -/

section Messages

variable (A : Arith) (builtins : Builtins) (s : EngineState)

theorem handleCancel_answers_once (msg : CancelMsg) :
    Meets (fun _ => True) (handleCancel A s msg) fun r => AnswersOnce msg.queueId msg.identifier r.2 := by
  unfold handleCancel
  refine (meets_anything _).bind fun found _ => ?_
  cases found with
  | none => exact meets_ok.mpr (answers_single rfl)
  | some found =>
      refine (meets_anything _).bind fun s' _ => (depthEvent_execution A s' _).bind ?_
      rintro _ ⟨event, rfl⟩
      exact meets_ok.mpr (.execution (.execution (answers_single rfl)))

theorem handleGetOrderbook_answers_once (msg : OrderbookQueryMsg) :
    Meets (fun _ => True) (handleGetOrderbook A s msg) fun outputs =>
      AnswersOnce msg.queueId msg.identifier outputs := by
  unfold handleGetOrderbook
  split
  · exact meets_ok.mpr (answers_single rfl)
  · exact (meets_anything _).bind fun _ _ => meets_ok.mpr (answers_single rfl)

theorem handleGetOrderStatus_answers_once (msg : OrderStatusQueryMsg) :
    AnswersOnce msg.queueId msg.identifier (handleGetOrderStatus s msg) := by
  unfold handleGetOrderStatus
  dsimp only
  split
  · exact answers_single rfl
  · exact answers_single rfl

/-- **One answer.** A message that is handled is answered once, on its queue and under its identifier. -/
theorem handle_answers_once (msg : Msg) : Meets (fun _ => True) (handle A builtins s msg) fun r =>
    AnswersOnce msg.queueId msg.identifier r.2 := by
  cases msg with
  | signup msg => exact meets_ok.mpr (answers_single rfl)
  | onramp msg =>
      exact (meets_anything _).bind fun _ _ =>
        meets_ok.mpr (.execution (answers_single rfl))
  | deposit msg =>
      exact (meets_anything _).bind fun _ _ =>
        meets_ok.mpr (.execution (answers_single rfl))
  | balance msg => exact meets_ok.mpr (answers_single rfl)
  | order msg => exact handleOrder_answers_once A s builtins msg
  | cancel msg => exact handleCancel_answers_once A s msg
  | orderbook msg => exact (handleGetOrderbook_answers_once A s msg).bind fun _ h => h
  | openOrders msg => exact meets_ok.mpr (answers_single rfl)
  | orderStatus msg => exact meets_ok.mpr (handleGetOrderStatus_answers_once s msg)
  | reset msg => exact meets_ok.mpr (answers_single rfl)

end Messages

end CexRs
