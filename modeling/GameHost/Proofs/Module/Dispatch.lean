import GameHost.Proofs.Module.Sealing

namespace GameHost

variable {τ η σ ε : Type}

namespace CallbackTable

variable {t u v : CallbackTable τ η} {id k : UInt32} {subscribers : List (Subscriber τ η)}

theorem exists_list? (t : CallbackTable τ η) (hid : id.toNat < callbackIds) :
    ∃ subscribers, t.list? id = some subscribers :=
  ⟨_, Vector.getElem?_eq_getElem hid⟩

theorem list?_of_le (hid : callbackIds ≤ id.toNat) : t.list? id = none := Vector.getElem?_eq_none hid

theorem lt_of_list? (hat : t.list? id = some subscribers) : id.toNat < callbackIds := by
  by_contra hid
  rw [list?_of_le (Nat.not_lt.1 hid)] at hat
  cases hat

def put (t : CallbackTable τ η) (id : UInt32) (subscribers : List (Subscriber τ η)) : CallbackTable τ η :=
  { t with lists := t.lists.setIfInBounds id.toNat subscribers }

theorem list?_put (hid : id.toNat < callbackIds) :
    (t.put id subscribers).list? k = if k = id then some subscribers else t.list? k := by
  simp only [list?, put, Vector.getElem?_setIfInBounds, hid, if_true]
  by_cases hk : k = id
  · rw [hk, if_pos rfl, if_pos rfl]
  · rw [if_neg hk, if_neg fun heq ↦ hk (UInt32.toNat_inj.1 heq).symm]

/-- What stands in the way of a subscription, and the error that tells so. -/
inductive Refusal (t : CallbackTable τ η) (id : UInt32) : Error → Prop
  | range (hid : callbackIds ≤ id.toNat) : Refusal t id (.callbackId id)
  | full {subscribers : List (Subscriber τ η)} (hat : t.list? id = some subscribers)
      (hfull : callbackCapacity ≤ subscribers.length) : Refusal t id (.callbackCapacity t.owner id)

theorem add_cases (t : CallbackTable τ η) (id : UInt32) (s : Subscriber τ η) :
    (∃ subscribers, t.list? id = some subscribers ∧ subscribers.length < callbackCapacity ∧
      t.add id s = .ok (t.put id (subscribers ++ [s]))) ∨
      ∃ e, t.add id s = .error e ∧ t.Refusal id e := by
  cases hat : t.list? id with
  | none =>
    refine .inr ⟨.callbackId id, by simp only [add, hat], .range ?_⟩
    by_contra hid
    obtain ⟨subscribers, hsome⟩ := t.exists_list? (Nat.not_le.1 hid)
    rw [hat] at hsome
    cases hsome
  | some subscribers =>
    by_cases hfull : callbackCapacity ≤ subscribers.length
    · exact .inr ⟨_, by simp only [add, hat, if_pos hfull], .full hat hfull⟩
    · exact .inl ⟨subscribers, rfl, Nat.not_le.1 hfull, by simp only [add, hat, if_neg hfull, put]⟩

def next (t : CallbackTable τ η) (id : UInt32) (s : Subscriber τ η) : CallbackTable τ η := (t.add id s).toOption.getD t

/-- Tables that come of a table when all that is done to it is to subscribe. -/
inductive Extends (t : CallbackTable τ η) : CallbackTable τ η → Prop
  | refl : Extends t t
  | tried {u : CallbackTable τ η} (h : Extends t u) (id : UInt32) (s : Subscriber τ η) : Extends t (u.next id s)

namespace Extends

theorem trans (h : t.Extends u) (h' : u.Extends v) : t.Extends v := by
  induction h' with
  | refl => exact h
  | tried _ id s ih => exact ih.tried id s

theorem of_add {s : Subscriber τ η} (h : t.add id s = .ok u) : t.Extends u := by
  have htried := (refl (t := t)).tried id s
  rwa [next, h] at htried

/-- What holds of every list with one more subscriber, wherever there was room for it, goes on to hold. -/
theorem invariant {P : UInt32 → List (Subscriber τ η) → Prop} (h : t.Extends u)
    (hgrow : ∀ k subscribers s, P k subscribers → subscribers.length < callbackCapacity → P k (subscribers ++ [s]))
    (hstart : ∀ k subscribers, t.list? k = some subscribers → P k subscribers) :
    ∀ k subscribers, u.list? k = some subscribers → P k subscribers := by
  induction h with
  | refl => exact hstart
  | @tried u h id s ih =>
    intro k subscribers hat
    rcases u.add_cases id s with ⟨before, hbefore, hroom, hadd⟩ | ⟨e, hadd, -⟩
    · simp only [next, hadd, Except.toOption, Option.getD_some, list?_put (lt_of_list? hbefore)] at hat
      split at hat
      · next heq =>
        subst heq
        cases hat
        exact hgrow k before s (ih k before hbefore) hroom
      · exact ih k subscribers hat
    · rw [next, hadd] at hat
      exact ih k subscribers hat

theorem exists_added (h : t.Extends u) (hat : t.list? k = some subscribers) :
    ∃ added, u.list? k = some (subscribers ++ added) := by
  have hprefix : ∀ j list, u.list? j = some list → ∀ before, t.list? j = some before → before <+: list := by
    refine h.invariant (P := fun j list ↦ ∀ before, t.list? j = some before → before <+: list) ?_ ?_
    · intro j list s hlist _ before hbefore
      exact (hlist before hbefore).trans (List.prefix_append list [s])
    · intro j list hlist before hbefore
      rw [hlist] at hbefore
      cases hbefore
      exact ⟨[], List.append_nil list⟩
  obtain ⟨list, hlist⟩ := u.exists_list? (lt_of_list? hat)
  obtain ⟨added, rfl⟩ := hprefix k list hlist subscribers hat
  exact ⟨added, hlist⟩

theorem length_le {owner : String} (h : (empty owner).Extends u) (hat : u.list? k = some subscribers) :
    subscribers.length ≤ callbackCapacity := by
  refine h.invariant (P := fun _ list ↦ list.length ≤ callbackCapacity) ?_ ?_ k subscribers hat
  · intro _ list s _ hroom
    rw [List.length_append]
    exact hroom
  · intro j list hlist
    rw [list?, empty, Vector.getElem?_replicate] at hlist
    split at hlist
    · cases hlist
      exact Nat.zero_le _
    · cases hlist

end Extends

theorem list?_of_add {s : Subscriber τ η} (h : t.add id s = .ok u) :
    ∃ subscribers, t.list? id = some subscribers ∧ u.list? id = some (subscribers ++ [s]) ∧ u.owner = t.owner ∧
      ∀ k ≠ id, u.list? k = t.list? k := by
  rcases t.add_cases id s with ⟨subscribers, hat, -, hadd⟩ | ⟨e, hadd, -⟩
  · rw [hadd] at h
    cases h
    refine ⟨subscribers, hat, ?_, rfl, fun k hk ↦ ?_⟩
    · rw [list?_put (lt_of_list? hat), if_pos rfl]
    · rw [list?_put (lt_of_list? hat), if_neg hk]
  · rw [hadd] at h
    cases h

end CallbackTable

namespace Subscriber

variable {run : Run σ ε η} {type : τ} {s : Subscriber τ η} {subscribers : List (Subscriber τ η)} {event : ε} {state : σ}
  {ran : List η} {result : Bool × ε × σ}

/-- Subscribers who are asked one after another, each with the event as the one before has left it, and all agree. -/
inductive Agree (run : Run σ ε η) (type : τ) : List (Subscriber τ η) → ε → σ → ε → σ → Prop
  | nil (event : ε) (state : σ) : Agree run type [] event state event state
  | cons {s : Subscriber τ η} {rest : List (Subscriber τ η)} {event next last : ε} {state after final : σ}
      (htype : s.accepts = type) (hrun : run s.handler event state = (true, next, after))
      (h : Agree run type rest next after last final) : Agree run type (s :: rest) event state last final

/-- A subscriber at whom a walk ends, with the handlers that this runs: one of another type is not run. -/
inductive Stops (run : Run σ ε η) (type : τ) (s : Subscriber τ η) (event : ε) (state : σ) : List η → ε → σ → Prop
  | mismatch (htype : s.accepts ≠ type) : Stops run type s event state [] event state
  | refusal {next : ε} {after : σ} (htype : s.accepts = type)
      (hrun : run s.handler event state = (false, next, after)) : Stops run type s event state [s.handler] next after

/-- What a walk over subscribers comes to, with the handlers that it runs, in order. -/
inductive Walk (run : Run σ ε η) (type : τ) (subscribers : List (Subscriber τ η)) (event : ε) (state : σ) :
    List η → Bool × ε × σ → Prop
  | through {last : ε} {final : σ} (h : Agree run type subscribers event state last final) :
      Walk run type subscribers event state (subscribers.map (·.handler)) (true, last, final)
  | stopped {front rest : List (Subscriber τ η)} {s : Subscriber τ η} {next last : ε} {after final : σ} {ran : List η}
      (hsplit : subscribers = front ++ s :: rest) (hfront : Agree run type front event state next after)
      (hstops : Stops run type s next after ran last final) :
      Walk run type subscribers event state (front.map (·.handler) ++ ran) (false, last, final)

theorem Walk.cons {next : ε} {after : σ} (htype : s.accepts = type)
    (hrun : run s.handler event state = (true, next, after)) (h : Walk run type subscribers next after ran result) :
    Walk run type (s :: subscribers) event state (s.handler :: ran) result := by
  cases h with
  | through h => exact .through (.cons htype hrun h)
  | @stopped front _ _ _ _ _ _ _ hsplit hfront hstops =>
    have hsplit : s :: subscribers = (s :: front) ++ _ := congrArg (s :: ·) hsplit
    exact .stopped hsplit (.cons htype hrun hfront) hstops

theorem Stops.walk {last : ε} {final : σ} (h : Stops run type s event state ran last final) :
    Walk run type (s :: subscribers) event state ran (false, last, final) := by
  have hsplit : s :: subscribers = [] ++ s :: subscribers := rfl
  exact .stopped hsplit (.nil event state) h

theorem Walk.ran_prefix (h : Walk run type subscribers event state ran result) :
    ran <+: subscribers.map (·.handler) := by
  cases h with
  | through => exact List.prefix_rfl
  | stopped hsplit _ hstops =>
    subst hsplit
    rw [List.map_append, List.prefix_append_right_inj, List.map_cons]
    cases hstops with
    | mismatch => exact List.nil_prefix
    | refusal => exact ⟨_, rfl⟩

def logged (run : Run σ ε η) : Run (σ × List η) ε η := fun handler event (state, log) ↦
  let (agrees, event, state) := run handler event state
  (agrees, event, state, log ++ [handler])

variable [DecidableEq τ]

theorem askAll_walk (run : Run σ ε η) (type : τ) (subscribers : List (Subscriber τ η)) (event : ε) (state : σ)
    (log : List η) :
    ∃ ran, Walk run type subscribers event state ran (askAll run type subscribers event state) ∧
      askAll (logged run) type subscribers event (state, log) =
        let (agreed, event, state) := askAll run type subscribers event state
        (agreed, event, state, log ++ ran) := by
  induction subscribers generalizing event state log with
  | nil => exact ⟨[], .through (.nil event state), by simp [askAll]⟩
  | cons s rest ih =>
    by_cases htype : s.accepts = type
    · rcases hrun : run s.handler event state with ⟨agrees, next, after⟩
      cases agrees with
      | false =>
        refine ⟨[s.handler], ?_, ?_⟩
        · simpa only [askAll, ask, htype, if_true, hrun] using (Stops.refusal htype hrun).walk
        · simp only [askAll, ask, htype, if_true, logged, hrun]
      | true =>
        obtain ⟨ran, hwalk, hlogged⟩ := ih next after (log ++ [s.handler])
        refine ⟨s.handler :: ran, ?_, ?_⟩
        · simpa only [askAll, ask, htype, if_true, hrun] using hwalk.cons htype hrun
        · simpa only [askAll, ask, htype, if_true, logged, hrun, List.append_assoc, List.singleton_append] using hlogged
    · refine ⟨[], ?_, ?_⟩
      · simpa only [askAll, ask, if_neg htype] using (Stops.mismatch htype).walk
      · simp only [askAll, ask, if_neg htype, List.append_nil]

end Subscriber

namespace CallbackTable

open Subscriber (Run Walk askAll_walk logged)

section

variable [DecidableEq τ] (table : σ → Option (CallbackTable τ η)) (run : Run σ ε η) (type : τ) (id : UInt32)

def dispatch (event : ε) (state : σ) : Bool × ε × σ :=
  match table state with
  | some t => t.enumerate id run type event state
  | none => (false, event, state)

def dispatchAt (i : ℕ) (event : ε) (state : σ) : Bool × ε × σ :=
  match table state with
  | some t => t.enumerateAt id run type i event state
  | none => (false, event, state)

/-- Asks the subscribers at some places, each by a dispatch of its own, up to the first that refuses. -/
def dispatchEach : List ℕ → ε → σ → Bool × ε × σ
  | [], event, state => (true, event, state)
  | i :: rest, event, state =>
    match dispatchAt table run type id i event state with
    | (true, event, state) => dispatchEach rest event state
    | refused => refused

end

variable {table : σ → Option (CallbackTable τ η)} {run : Run σ ε η} {type : τ} {id : UInt32} {event : ε} {state : σ}
  {t : CallbackTable τ η}

/-- Handlers do nothing to the table but subscribe to it, or try to. -/
def AddsOnly (table : σ → Option (CallbackTable τ η)) (run : Run σ ε η) : Prop :=
  ∀ handler event state t, table state = some t → ∃ u, table (run handler event state).2.2 = some u ∧ t.Extends u

variable [DecidableEq τ]

namespace AddsOnly

variable (h : AddsOnly table run)

include h

theorem ask (hat : table state = some t) (s : Subscriber τ η) (type : τ) (event : ε) :
    ∃ u, table (s.ask run type event state).2.2 = some u ∧ t.Extends u := by
  rw [Subscriber.ask]
  split
  · exact h s.handler event state t hat
  · exact ⟨t, hat, .refl⟩

theorem askAll (hat : table state = some t) (subscribers : List (Subscriber τ η)) (type : τ) (event : ε) :
    ∃ u, table (Subscriber.askAll run type subscribers event state).2.2 = some u ∧ t.Extends u := by
  induction subscribers generalizing event state t with
  | nil => exact ⟨t, hat, .refl⟩
  | cons s rest ih =>
    obtain ⟨u, hu, hextends⟩ := h.ask hat s type event
    rcases hask : s.ask run type event state with ⟨agrees, next, after⟩
    rw [hask] at hu
    cases agrees with
    | false =>
      simp only [Subscriber.askAll, hask]
      exact ⟨u, hu, hextends⟩
    | true =>
      obtain ⟨v, hv, hextends'⟩ := ih hu next
      simp only [Subscriber.askAll, hask]
      exact ⟨v, hv, hextends.trans hextends'⟩

theorem dispatchEach_eq (type : τ) (event : ε) (front rest added : List (Subscriber τ η)) (hat : table state = some t)
    (hlist : t.list? id = some (front ++ rest ++ added)) :
    dispatchEach table run type id (List.range' front.length rest.length) event state =
      Subscriber.askAll run type rest event state := by
  -- The subscribers in `front` were asked before. What the others add stands behind `rest`, so that places stay.
  induction rest generalizing front added event state t with
  | nil => rfl
  | cons s rest ih =>
    have hasked : dispatchAt table run type id front.length event state = s.ask run type event state := by
      simp [dispatchAt, hat, enumerateAt, hlist]
    obtain ⟨u, hu, hextends⟩ := h.ask hat s type event
    obtain ⟨more, hmore⟩ := hextends.exists_added hlist
    rw [List.length_cons, List.range'_succ, dispatchEach, hasked, Subscriber.askAll]
    rcases hask : s.ask run type event state with ⟨agrees, next, after⟩
    rw [hask] at hu
    cases agrees with
    | false => rfl
    | true =>
      have hnext := ih next (front ++ [s]) (added ++ more) hu (by simpa using hmore)
      rwa [List.length_append, List.length_singleton] at hnext

end AddsOnly

/-- What a dispatch comes to, of which the state has the table `t` when it begins. -/
structure Dispatched (table : σ → Option (CallbackTable τ η)) (run : Run σ ε η) (type : τ) (id : UInt32) (event : ε)
    (state : σ) (t : CallbackTable τ η) (subscribers : List (Subscriber τ η)) (ran : List η) (result : Bool × ε × σ) :
    Prop where
  listed : t.list? id = some subscribers
  room : subscribers.length ≤ callbackCapacity
  walk : Walk run type subscribers event state ran result
  once : ran <+: subscribers.map (·.handler)
  logged : t.enumerate id (logged run) type event (state, []) = (result.1, result.2.1, result.2.2, ran)
  each : AddsOnly table run → dispatchEach table run type id (List.range (t.count id)) event state = result
  grown : AddsOnly table run → ∃ u, table result.2.2 = some u ∧ t.Extends u
  later (after : σ) (u : CallbackTable τ η) : table after = some u → t.Extends u →
    ∃ added, u.list? id = some (subscribers ++ added) ∧
      ∀ event, ∃ ran, Walk run type (subscribers ++ added) event after ran (dispatch table run type id event after)

theorem exists_dispatched (run : Run σ ε η) (hat : table state = some t) {owner : String}
    (hreached : (empty owner).Extends t) (type : τ) (hid : id.toNat < callbackIds) (event : ε) :
    ∃ subscribers ran,
      Dispatched table run type id event state t subscribers ran (dispatch table run type id event state) := by
  obtain ⟨subscribers, hlist⟩ := t.exists_list? hid
  obtain ⟨ran, hwalk, hlogged⟩ := askAll_walk run type subscribers event state []
  have hresult : dispatch table run type id event state = Subscriber.askAll run type subscribers event state := by
    simp only [dispatch, hat, enumerate, hlist]
  refine ⟨subscribers, ran, ?_⟩
  rw [hresult]
  constructor
  · exact hlist
  · exact hreached.length_le hlist
  · exact hwalk
  · exact hwalk.ran_prefix
  · simpa only [enumerate, hlist, List.nil_append] using hlogged
  · intro hadds
    have hcount : t.count id = subscribers.length := by simp [count, hlist]
    have heach := hadds.dispatchEach_eq type event [] subscribers [] hat (by simpa using hlist)
    rwa [List.length_nil, ← List.range_eq_range', ← hcount] at heach
  · exact fun hadds ↦ hadds.askAll hat subscribers type event
  · intro after u hu hextends
    obtain ⟨added, hadded⟩ := hextends.exists_added hlist
    refine ⟨added, hadded, fun event ↦ ?_⟩
    obtain ⟨ran, hwalk, -⟩ := askAll_walk run type (subscribers ++ added) event after []
    exact ⟨ran, by simpa only [dispatch, hu, enumerate, hadded] using hwalk⟩

end CallbackTable

/-! ### The callbacks of modules -/

theorem Module.Becomes.callbacks {m after : Module} (h : m.Becomes after) : m.callbacks.Extends after.callbacks := by
  cases h with
  | same | arrived => exact .refl
  | tended h =>
    cases h with
    | subscribed h => exact .of_add h
    | valued | laidOut | attached | hooked => exact .refl

namespace World

open CallbackTable (AddsOnly dispatch)

def callbacksOf (i : ℕ) (w : World) : Option (CallbackTable EventType (Handler Operation)) :=
  w.modules[i]?.map (·.callbacks)

variable {w v : World} {i : ℕ} {t : CallbackTable EventType (Handler Operation)}

theorem Changes.callbacks (h : Changes w v) (hat : callbacksOf i w = some t) :
    ∃ u, callbacksOf i v = some u ∧ t.Extends u := by
  induction h with
  | refl => exact ⟨t, hat, .refl⟩
  | tail _ hlast ih =>
    obtain ⟨u, hu, hextends⟩ := ih
    obtain ⟨m, hm, rfl⟩ := Option.map_eq_some_iff.1 hu
    have hcomes := hlast.comes i
    rw [hm] at hcomes
    simp only [callbacksOf]
    generalize (World.modules _)[i]? = after at hcomes ⊢
    cases hcomes with
    | kept hbecomes => exact ⟨_, rfl, hextends.trans hbecomes.callbacks⟩

theorem addsOnly_handle {run : ScriptRunner} (hrun : run.Changing) (i : ℕ) : AddsOnly (callbacksOf i) (handle run) :=
  fun h event w _ hat ↦ (changes_handle hrun h event w).callbacks hat

theorem enumerate_eq {run : ScriptRunner} {m : Module} (hat : w.modules[i]? = some m) (id : UInt32) (event : Event) :
    enumerate run m id event none w =
      let (agreed, event, w) := dispatch (callbacksOf i) (handle run) event.type id event w
      (.done (eventAnswer agreed event), w) := by
  simp only [enumerate, dispatch, callbacksOf, hat, Option.map_some]

theorem unchanged_onTarget {c : Context} {act : ℕ → Module → Outcome × World} {target : Target} {e : Error}
    (hact : ∀ id m, act id m = (.failed e, v) → v = w) (h : onTarget c w act target = (.failed e, v)) : v = w := by
  have hgo (id : Option ℕ) (h : onTarget.go w act id = (.failed e, v)) : v = w := by
    simp only [onTarget.go] at h
    split at h
    · cases h
    · split at h
      · exact hact _ _ h
      · cases h
  cases target with
  | registered name =>
    simp only [onTarget] at h
    split at h
    · exact hact _ _ h
    · cases h
      rfl
  | aliased name => exact hgo _ h
  | self => exact hgo _ h

theorem unchanged_of_subscribe_failed {run : ScriptRunner} {c : Context} {target : Target} {id : UInt32} {name : String}
    {type : EventType} {handler : Handler Operation} {e : Error}
    (h : perform run c w (.subscribe target id name type handler) = (.failed e, v)) : v = w := by
  refine unchanged_onTarget (fun i m hact ↦ ?_) h
  cases hadd : m.callbacks.add id ⟨name, type, handler⟩ with
  | ok table =>
    rw [hadd] at hact
    cases hact
  | error e =>
    rw [hadd] at hact
    cases hact
    rfl

end World

open CallbackTable Subscriber

/-- Whatever handlers do, a dispatch walks over the subscribers that there were when it began. As long as handlers do no
more to the table than to subscribe, asking the subscribers one by one comes to the same, and all who are added
meanwhile stand behind them in the dispatches that follow. Somebody is added at the end of one list, or nothing changes.
Modules dispatch in this way, and their handlers do no more to a table, whatever is at work around them. -/
theorem dispatch_orderly [DecidableEq τ] {owner : String} {table : σ → Option (CallbackTable τ η)} {run : Run σ ε η}
    {state : σ} {t : CallbackTable τ η} (hat : table state = some t)
    (hreached : (empty owner).Extends t) (type : τ) (id : UInt32) (event : ε) :
    (id.toNat < callbackIds → ∃ subscribers ran,
      Dispatched table run type id event state t subscribers ran (dispatch table run type id event state)) ∧
    (callbackIds ≤ id.toNat → dispatch table run type id event state = (false, event, state) ∧ t.count id = 0 ∧
      ∀ i, dispatchAt table run type id i event state = (false, event, state)) ∧
    (∀ s, (∃ subscribers u, t.list? id = some subscribers ∧ subscribers.length < callbackCapacity ∧
        t.add id s = .ok u ∧ u.list? id = some (subscribers ++ [s]) ∧ u.owner = t.owner ∧
        ∀ k ≠ id, u.list? k = t.list? k) ∨ ∃ e, t.add id s = .error e ∧ t.Refusal id e) ∧
    (∀ depth, ScriptRunner.Changing (World.runScript (World.execute depth))) ∧
    (∀ runner : ScriptRunner, runner.Changing → (∀ busy, (runner.during busy).Changing) ∧
      ∀ (i : ℕ) (w : World) (m : Module) (event : Event), w.modules[i]? = some m →
        AddsOnly (World.callbacksOf i) (World.handle runner) ∧
          World.enumerate runner m id event none w =
            let (agreed, event, w) := dispatch (World.callbacksOf i) (World.handle runner) event.type id event w
            (.done (World.eventAnswer agreed event), w)) ∧
    ∀ (runner : ScriptRunner) (c : Context) (w v : World) (target : Target) (name : String) (kind : EventType)
      (handler : Handler Operation) (e : Error),
      World.perform runner c w (.subscribe target id name kind handler) = (.failed e, v) → v = w := by
  refine ⟨fun hid ↦ exists_dispatched run hat hreached type hid event, fun hid ↦ ?_, fun s ↦ ?_,
    fun depth ↦ World.changing_runScript (World.changes_execute depth), fun runner hrunner ↦ ?_, ?_⟩
  · have hnone : t.list? id = none := list?_of_le hid
    refine ⟨by simp only [dispatch, hat, enumerate, hnone], by simp [count, hnone], fun i ↦ ?_⟩
    simp [dispatchAt, hat, enumerateAt, hnone]
  · rcases t.add_cases id s with ⟨subscribers, hlist, hroom, hadd⟩ | hrefused
    · obtain ⟨before, hbefore, hafter, howner, hother⟩ := list?_of_add hadd
      rw [hlist] at hbefore
      cases hbefore
      exact .inl ⟨subscribers, _, hlist, hroom, hadd, hafter, howner, hother⟩
    · exact .inr hrefused
  · refine ⟨World.changing_during hrunner, fun i w m event hm ↦ ?_⟩
    exact ⟨World.addsOnly_handle hrunner i, World.enumerate_eq hm id event⟩
  · intro runner c w v target name kind handler e
    exact World.unchanged_of_subscribe_failed

namespace World

def guide (mark : String) (script : Script) : Handler Operation := ⟨mark, none, some 1, script, none, true⟩

/-- The first guide asks all about a word, which no guide takes, and then finds one guide more. -/
def guides : CallbackTable EventType (Handler Operation) :=
  let more := .subscribe (.aliased "c") 3 "guild" .tour (guide "third" [])
  let first := guide "first" [⟨.enumerate (.aliased "c") 3 (.word 5) none, false, none⟩, ⟨more, false, none⟩]
  ((empty "character").next 3 ⟨"quest", .tour, first⟩).next 3 ⟨"guild", .tour, guide "second" []⟩

theorem extends_guides : (empty "character").Extends guides := .tried (.tried .refl 3 _) 3 _

def guided : World :=
  { fresh with
    modules := [⟨"character", .created, .unit, [], [], guides, .empty "character"⟩]
    aliases := [("c", 0)] }

theorem dispatch_orderly_guided :
    let run := handle (runScript (execute 2))
    let tour := dispatch (callbacksOf 0) run .tour 3
    let first := tour (.tour 0 []) guided
    ∃ subscribers ran, Dispatched (callbacksOf 0) run .tour 3 (.tour 0 []) guided guides subscribers ran first ∧
      subscribers.length = 2 ∧ first.2.1 = .tour 2 ["first", "second"] ∧
      ∃ u, callbacksOf 0 first.2.2 = some u ∧ (u.list? 3).map (·.length) = some 3 ∧
        (tour (.tour 0 []) first.2.2).2.1 = .tour 3 ["first", "second", "third"] := by
  intro run tour first
  have horderly := @dispatch_orderly _ _ _ _ _ "character" (callbacksOf 0) run guided guides rfl extends_guides
  obtain ⟨subscribers, ran, h⟩ := (horderly .tour 3 (.tour 0 [])).1 (by decide)
  obtain ⟨u, hu, -⟩ := h.grown (addsOnly_handle (changing_runScript (changes_execute 2)) 0)
  have hcount : (guides.list? 3).map (·.length) = some 2 := by decide
  rw [h.listed, Option.map_some, Option.some_inj] at hcount
  have hgrown : ((callbacksOf 0 first.2.2).bind (·.list? 3)).map (·.length) = some 3 := by decide
  rw [hu, Option.bind_some] at hgrown
  exact ⟨subscribers, ran, h, hcount, by decide, u, hu, hgrown, by decide⟩

end World

end GameHost
