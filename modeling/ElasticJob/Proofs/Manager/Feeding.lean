import ElasticJob.Scheduler.Step

/-!
A manager apart from its scheduler: it starts, then reads one event after the other until it
decides or fails. The events may come from several streams that keep their own order only.
-/

namespace ElasticJob

inductive Verdict (σ : Type) where
  | pending (context : Context) (manager : σ)
  | finalized (decision : Reconfiguration) (unread : List ManagerEvent)
  | failed (error : ManagerError) (unread : List ManagerEvent)
  deriving DecidableEq

theorem Scheduler.learn_frame (context : Context) (event : ManagerEvent) :
    (Scheduler.learn context event).edges = context.edges ∧
      (Scheduler.learn context event).parallelism = context.parallelism := by
  cases event <;> exact ⟨rfl, rfl⟩

namespace Behaviour

variable {σ : Type} (behaviour : Behaviour σ)

def feed (context : Context) (manager : σ) : List ManagerEvent → Verdict σ
  | [] => .pending context manager
  | event :: rest =>
      let informed := Scheduler.learn context event
      match behaviour.onEvent informed event manager with
      | (next, .ok .pending) => feed informed next rest
      | (_, .ok (.finalize decision)) => .finalized decision rest
      | (_, .error error) => .failed error rest

def serve (context : Context) (manager : σ) (events : List ManagerEvent) : Verdict σ :=
  match behaviour.start context manager with
  | (next, .ok .pending) => behaviour.feed context next events
  | (_, .ok (.finalize decision)) => .finalized decision events
  | (_, .error error) => .failed error events

theorem feed_cons_pending (context informed : Context) (manager last : σ) (event : ManagerEvent)
    (rest : List ManagerEvent) :
    behaviour.feed context manager (event :: rest) = .pending informed last ↔
      ∃ next, behaviour.onEvent (Scheduler.learn context event) event manager =
          (next, .ok .pending) ∧
        behaviour.feed (Scheduler.learn context event) next rest = .pending informed last := by
  simp only [feed]
  rcases behaviour.onEvent (Scheduler.learn context event) event manager with
    ⟨after, error | (_ | decision)⟩ <;> simp

theorem serve_pending (context informed : Context) (manager last : σ)
    (events : List ManagerEvent) :
    behaviour.serve context manager events = .pending informed last ↔
      ∃ next, behaviour.start context manager = (next, .ok .pending) ∧
        behaviour.feed context next events = .pending informed last := by
  unfold serve
  rcases behaviour.start context manager with ⟨after, error | (_ | decision)⟩ <;> simp

theorem feed_append (context informed : Context) (manager next : σ)
    (first second : List ManagerEvent)
    (waits : behaviour.feed context manager first = .pending informed next) :
    behaviour.feed context manager (first ++ second) = behaviour.feed informed next second := by
  induction first generalizing context manager with
  | nil =>
      cases waits
      rfl
  | cons event rest ih =>
      obtain ⟨after, answer, later⟩ := (behaviour.feed_cons_pending _ _ _ _ _ _).mp waits
      rw [List.cons_append, feed, answer]
      exact ih _ _ later

theorem serve_append (context informed : Context) (manager next : σ)
    (first second : List ManagerEvent)
    (waits : behaviour.serve context manager first = .pending informed next) :
    behaviour.serve context manager (first ++ second) = behaviour.feed informed next second := by
  obtain ⟨after, answer, fed⟩ := (behaviour.serve_pending _ _ _ _ _).mp waits
  rw [serve, answer]
  exact behaviour.feed_append _ _ _ _ _ _ fed

/-- A decision is the answer to the start or to one event, and what a manager keeps while it answers
with nothing holds until then. -/
theorem serve_finalized (kept : Context → σ → Prop) {context : Context} {manager : σ}
    {events unread : List ManagerEvent} {decision : Reconfiguration}
    (begins : ∀ next, behaviour.start context manager = (next, .ok .pending) → kept context next)
    (keeps : ∀ current event state next, kept current state →
      behaviour.onEvent (Scheduler.learn current event) event state = (next, .ok .pending) →
        kept (Scheduler.learn current event) next)
    (decided : behaviour.serve context manager events = .finalized decision unread) :
    (behaviour.start context manager).2 = .ok (.finalize decision) ∨
      ∃ current event state, kept current state ∧
        (behaviour.onEvent (Scheduler.learn current event) event state).2 =
          .ok (.finalize decision) := by
  have fed : ∀ (rest : List ManagerEvent) (current : Context) (state : σ), kept current state →
      behaviour.feed current state rest = .finalized decision unread →
        ∃ current event state, kept current state ∧
          (behaviour.onEvent (Scheduler.learn current event) event state).2 =
            .ok (.finalize decision) := by
    intro rest
    induction rest with
    | nil => intro current state _ decided; cases decided
    | cons event rest ih =>
        intro current state holds decided
        rw [feed] at decided
        rcases answer : behaviour.onEvent (Scheduler.learn current event) event state with
          ⟨next, error | (_ | last)⟩ <;> rw [answer] at decided
        · cases decided
        · exact ih _ _ (keeps _ _ _ _ holds answer) decided
        · cases decided
          exact ⟨current, event, state, holds, congrArg Prod.snd answer⟩
  rw [serve] at decided
  rcases answer : behaviour.start context manager with ⟨next, error | (_ | last)⟩ <;>
    rw [answer] at decided
  · cases decided
  · exact .inr (fed events context next (begins next answer) decided)
  · cases decided
    exact .inl rfl

theorem serve_inside {τ : Type} (outer : Behaviour τ) (wrap : σ → τ)
    (starts : ∀ context state, outer.start context (wrap state) =
      (wrap (behaviour.start context state).1, (behaviour.start context state).2))
    (answers : ∀ context event state, outer.onEvent context event (wrap state) =
      (wrap (behaviour.onEvent context event state).1,
        (behaviour.onEvent context event state).2))
    (context informed : Context) (manager : σ) (last : τ) (events : List ManagerEvent)
    (waits : outer.serve context (wrap manager) events = .pending informed last) :
    ∃ inner, behaviour.serve context manager events = .pending informed inner := by
  -- on the events that are left, whatever the inner manager has come to
  have fed : ∀ (rest : List ManagerEvent) (current : Context) (state : σ),
      outer.feed current (wrap state) rest = .pending informed last →
        ∃ inner, behaviour.feed current state rest = .pending informed inner := by
    intro rest
    induction rest with
    | nil =>
        intro current state waits
        cases waits
        exact ⟨state, rfl⟩
    | cons event rest ih =>
        intro current state waits
        obtain ⟨next, answer, later⟩ := (outer.feed_cons_pending _ _ _ _ _ _).mp waits
        rw [answers, Prod.mk.injEq] at answer
        obtain ⟨rfl, silent⟩ := answer
        obtain ⟨inner, reached⟩ := ih _ _ later
        exact ⟨inner,
          (behaviour.feed_cons_pending _ _ _ _ _ _).mpr ⟨_, Prod.ext rfl silent, reached⟩⟩
  obtain ⟨next, answer, later⟩ := (outer.serve_pending _ _ _ _ _).mp waits
  rw [starts, Prod.mk.injEq] at answer
  obtain ⟨rfl, silent⟩ := answer
  obtain ⟨inner, reached⟩ := fed events context _ later
  exact ⟨inner, (behaviour.serve_pending _ _ _ _ _).mpr ⟨_, Prod.ext rfl silent, reached⟩⟩

end Behaviour

inductive Interleaving {α : Type} : List (List α) → List α → Prop where
  | done {streams : List (List α)} (read : ∀ stream ∈ streams, stream = []) :
      Interleaving streams []
  | take {streams : List (List α)} {index : Nat} {item : α} {rest merged : List α}
      (found : streams[index]? = some (item :: rest))
      (later : Interleaving (streams.set index rest) merged) :
      Interleaving streams (item :: merged)

namespace Interleaving

variable {α : Type}

theorem mem_stream {streams : List (List α)} {merged : List α}
    (mixed : Interleaving streams merged) :
    ∀ item ∈ merged, ∃ stream ∈ streams, item ∈ stream := by
  induction mixed with
  | done read => simp
  | @take streams index first rest merged found later ih =>
      have listed := List.mem_of_getElem? found
      intro item member
      rcases List.mem_cons.mp member with rfl | member
      · exact ⟨_, listed, List.mem_cons_self⟩
      · obtain ⟨stream, stored, held⟩ := ih item member
        rcases List.mem_or_eq_of_mem_set stored with old | rfl
        · exact ⟨stream, old, held⟩
        · exact ⟨_, listed, List.mem_cons_of_mem _ held⟩

theorem filter_eq {streams : List (List α)} {merged : List α}
    (mixed : Interleaving streams merged) (index : Nat) (stream : List α) (belongs : α → Bool)
    (found : streams[index]? = some stream) (own : ∀ item ∈ stream, belongs item = true)
    (foreign : ∀ other items, other ≠ index → streams[other]? = some items →
      ∀ item ∈ items, belongs item = false) :
    merged.filter belongs = stream := by
  induction mixed generalizing stream with
  | done read => simp [read stream (List.mem_of_getElem? found)]
  | @take streams chosen first rest merged next later ih =>
      have inside : chosen < streams.length := (List.getElem?_eq_some_iff.mp next).1
      by_cases here : chosen = index
      -- the stream itself gives the next item, which is kept
      · subst chosen
        obtain rfl : first :: rest = stream := Option.some.inj (next.symm.trans found)
        have others : rest = merged.filter belongs := by
          refine (ih rest (by simp [inside]) ?_ ?_).symm
          · exact fun item member => own item (List.mem_cons_of_mem _ member)
          · intro other items apart stored
            rw [List.getElem?_set_ne (Ne.symm apart)] at stored
            exact foreign other items apart stored
        rw [List.filter_cons_of_pos (own first List.mem_cons_self), ← others]
      -- another stream does, and its item is dropped
      · have stranger := foreign chosen _ here next
        rw [List.filter_cons_of_neg (by simp [stranger first List.mem_cons_self])]
        refine ih stream (by rw [List.getElem?_set_ne here]; exact found) own ?_
        intro other items apart stored item member
        by_cases same : chosen = other
        · subst other
          obtain rfl : rest = items := by simpa [inside] using stored
          exact stranger item (List.mem_cons_of_mem _ member)
        · rw [List.getElem?_set_ne same] at stored
          exact foreign other items apart stored item member

theorem nil_cons {streams : List (List α)} {merged : List α}
    (mixed : Interleaving streams merged) : Interleaving ([] :: streams) merged := by
  induction mixed with
  | done read => exact .done (by simpa using read)
  | @take streams index first rest merged found later ih =>
      exact @Interleaving.take _ _ (index + 1) _ _ _ found ih

theorem append_cons {streams : List (List α)} {merged : List α}
    (mixed : Interleaving streams merged) (stream : List α) :
    Interleaving (stream :: streams) (stream ++ merged) := by
  induction stream with
  | nil => exact mixed.nil_cons
  | cons first rest ih => exact @Interleaving.take _ (_ :: streams) 0 _ _ _ rfl ih

theorem flatten (streams : List (List α)) : Interleaving streams streams.flatten := by
  induction streams with
  | nil => exact .done (by simp)
  | cons first rest ih => exact ih.append_cons first

end Interleaving

end ElasticJob
