/-
  How actions run.

  An action applied to a state gives an answer and the state afterwards. Each way to build an action
  has one equation here, so that proofs about operations take them apart step by step and never
  unfold the monad. Sequences are treated for errors of any type, since sealing has its own.
-/
import EndToEnd.Action

namespace EndToEnd.Action

variable {ε σ τ α β : Type}

/-- Answers can be compared with what is expected. -/
instance decidableAnswer [DecidableEq ε] [DecidableEq α] : DecidableEq (Except ε α)
  | .ok a, .ok b => decidable_of_iff (a = b) (by rw [Except.ok.injEq])
  | .error e, .error f => decidable_of_iff (e = f) (by rw [Except.error.injEq])
  | .ok _, .error _ => isFalse nofun
  | .error _, .ok _ => isFalse nofun

@[simp] theorem pure_run (a : α) (s : σ) : (pure a : ExceptT ε (StateM σ) α) s = (.ok a, s) := rfl

@[simp] theorem throw_run (e : ε) (s : σ) :
    (throw e : ExceptT ε (StateM σ) α) s = (.error e, s) := rfl

@[simp] theorem lift_run (r : Except Error α) (s : σ) : (lift r : Action σ α) s = (r, s) := rfl

@[simp] theorem draw_run (x : StateM σ α) (s : σ) :
    (liftM x : ExceptT ε (StateM σ) α) s = (.ok (x s).1, (x s).2) := rfl

@[simp] theorem get_run (s : σ) : (get : Action σ σ) s = (.ok s, s) := rfl

@[simp] theorem getThe_run (s : σ) : (getThe σ : Action σ σ) s = (.ok s, s) := rfl

@[simp] theorem modify_run (f : σ → σ) (s : σ) : (modify f : Action σ PUnit) s = (.ok ⟨⟩, f s) := rfl

theorem bind_run (x : ExceptT ε (StateM σ) α) (f : α → ExceptT ε (StateM σ) β) (s : σ) :
    (x >>= f) s = match x s with
      | (.ok a, t) => f a t
      | (.error e, t) => (.error e, t) := by
  show ExceptT.bindCont f (x s).1 (x s).2 = _
  rcases x s with ⟨_ | _, _⟩ <;> rfl

variable {x : ExceptT ε (StateM σ) α} {f : α → ExceptT ε (StateM σ) β} {s t : σ}

theorem bind_ok {a : α} (h : x s = (.ok a, t)) : (x >>= f) s = f a t := by
  rw [bind_run, h]

theorem bind_error {e : ε} (h : x s = (.error e, t)) : (x >>= f) s = (.error e, t) := by
  rw [bind_run, h]

/-- A sequence that ends well has a first part that does. -/
theorem of_bind_ok {b : β} (h : (x >>= f) s = (.ok b, t)) :
    ∃ a u, x s = (.ok a, u) ∧ f a u = (.ok b, t) := by
  rw [bind_run] at h
  split at h
  · exact ⟨_, _, ‹_›, h⟩
  · cases h

theorem run_of_isOk (h : (x s).1.isOk = true) : ∃ a t, x s = (.ok a, t) := by
  cases hrun : x s with
  | mk r t =>
    rw [hrun] at h
    cases r with
    | error e => cases h
    | ok a => exact ⟨a, t, rfl⟩

theorem run_of_toOption {r : Except ε α × σ} {a : α} (h : r.1.toOption = some a) :
    r = (.ok a, r.2) := by
  obtain ⟨r, s⟩ := r
  cases r with
  | error e => cases h
  | ok b => cases h; rfl

theorem of_except_bind_ok {r : Except ε α} {f : α → Except ε β} {b : β} (h : (r >>= f) = .ok b) :
    ∃ a, r = .ok a ∧ f a = .ok b := by
  cases r with
  | error e => cases h
  | ok a => exact ⟨a, rfl, h⟩

theorem of_lift_bind_ok {r : Except Error α} {f : α → Action σ β} {b : β}
    (h : (lift r >>= f) s = (.ok b, t)) : ∃ a, r = .ok a ∧ f a s = (.ok b, t) := by
  obtain ⟨a, u, hr, hf⟩ := of_bind_ok h
  obtain ⟨hr, rfl⟩ := Prod.mk.inj hr
  exact ⟨a, by assumption, hf⟩

theorem map_run (f : α → β) (x : Action σ α) (s : σ) :
    (f <$> x) s = ((x s).1.map f, (x s).2) := by
  rw [map_eq_pure_bind, bind_run]
  rcases x s with ⟨_ | _, _⟩ <;> rfl

@[simp] theorem on_run (get : σ → τ) (set : σ → τ → σ) (x : Action τ α) (s : σ) :
    on get set x s = ((x (get s)).1, set s (x (get s)).2) := rfl

@[simp] theorem each_nil (f : α → Action σ Unit) : each f [] = pure () := rfl

theorem each_cons (f : α → Action σ Unit) (a : α) (as : List α) :
    each f (a :: as) = (do f a; each f as) := rfl

theorem each_singleton (f : α → Action σ Unit) (a : α) (s : σ) : each f [a] s = f a s := by
  rw [each_cons, bind_run]
  rcases f a s with ⟨_ | _, _⟩ <;> rfl

theorem each_append (f : α → Action σ Unit) (as bs : List α) :
    each f (as ++ bs) = (do each f as; each f bs) := by
  induction as with
  | nil => rw [List.nil_append, each_nil, pure_bind]
  | cons a as ih => rw [List.cons_append, each_cons, each_cons, ih, bind_assoc]

theorem each_map (f : β → Action σ Unit) (g : α → β) (as : List α) :
    each f (as.map g) = each (fun a => f (g a)) as := by
  induction as with
  | nil => rfl
  | cons a as ih => rw [List.map_cons, each_cons, each_cons, ih]

/-- The action, without its answer. -/
def silently (x : Action σ α) : Action σ Unit := fun s => ((x s).1.map fun _ => (), (x s).2)

/-! ## What actions keep -/

/-- The action keeps a property of the state, whatever its answer, and its answers have a property
where it gives one. -/
def Keeps (P : σ → Prop) (x : Action σ α) (Q : α → Prop) : Prop :=
  ∀ s, P s → P (x s).2 ∧ ∀ a, (x s).1 = .ok a → Q a

namespace Keeps

variable {P : σ → Prop} {Q : α → Prop} {R : β → Prop}

theorem pure {a : α} (h : Q a) : Keeps P (pure a) Q := by
  intro s hs
  refine ⟨hs, fun b hb => ?_⟩
  cases hb
  exact h

theorem throw (e : Error) : Keeps P (throw e : Action σ α) Q := fun _ hs => ⟨hs, nofun⟩

theorem lift {r : Except Error α} (h : ∀ a, r = .ok a → Q a) : Keeps P (lift r) Q :=
  fun _ hs => ⟨hs, h⟩

theorem bind {x : Action σ α} {f : α → Action σ β} (hx : Keeps P x Q)
    (hf : ∀ a, Q a → Keeps P (f a) R) : Keeps P (x >>= f) R := by
  intro s hs
  obtain ⟨hs', hq⟩ := hx s hs
  rw [bind_run]
  cases hr : x s with
  | mk r t =>
    rw [hr] at hs' hq
    cases r with
    | error e => exact ⟨hs', nofun⟩
    | ok a => exact hf a (hq a rfl) t hs'

theorem map {x : Action σ α} {f : α → β} (hx : Keeps P x fun a => R (f a)) : Keeps P (f <$> x) R := by
  intro s hs
  obtain ⟨hs', hq⟩ := hx s hs
  rw [map_run]
  refine ⟨hs', fun b hb => ?_⟩
  cases hr : (x s).1 with
  | error e => rw [hr] at hb; cases hb
  | ok a =>
    rw [hr] at hb
    cases hb
    exact hq a hr

/-- What changes nothing keeps everything. -/
theorem lifted (r : Except Error α) : Keeps P (Action.lift r) fun _ => True := lift fun _ _ => trivial

theorem get : Keeps P (get : Action σ σ) P := by
  intro s hs
  refine ⟨hs, fun a ha => ?_⟩
  cases ha
  exact hs

theorem mono {Q' : α → Prop} {x : Action σ α} (hx : Keeps P x Q) (h : ∀ a, Q a → Q' a) :
    Keeps P x Q' :=
  fun s hs => ⟨(hx s hs).1, fun a ha => h a ((hx s hs).2 a ha)⟩

theorem true {x : Action σ α} (hx : Keeps P x Q) : Keeps P x fun _ => True := hx.mono fun _ _ => trivial

theorem silently {x : Action σ α} (hx : Keeps P x Q) : Keeps P (Action.silently x) fun _ => True :=
  fun s hs => ⟨(hx s hs).1, fun _ _ => trivial⟩

theorem each {f : β → Action σ Unit} {items : List β}
    (h : ∀ b ∈ items, Keeps P (f b) fun _ => True) : Keeps P (each f items) fun _ => True := by
  induction items with
  | nil => exact pure trivial
  | cons b items ih =>
    exact bind (h b List.mem_cons_self) fun _ _ => ih fun c hc => h c (List.mem_cons_of_mem _ hc)

/-- An action that keeps a part of the state as it is keeps all that is true of that part. -/
theorem through {f : σ → τ} {P' : τ → Prop} {x : Action σ α} (hx : ∀ b, Keeps (fun s => f s = b) x Q) :
    Keeps (fun s => P' (f s)) x Q := by
  intro s hs
  obtain ⟨hsame, hq⟩ := hx (f s) s rfl
  refine ⟨?_, hq⟩
  dsimp only
  rw [hsame]
  exact hs

/-- What an action keeps of a part of the state, it keeps when it acts on that part of it. -/
theorem on {get : σ → τ} {set : σ → τ → σ} {P' : τ → Prop} {x : Action τ α} (hx : Keeps P' x Q)
    (hget : ∀ s, P s → P' (get s)) (hset : ∀ s t, P s → P' t → P (set s t)) :
    Keeps P (on get set x) Q := by
  intro s hs
  obtain ⟨ht, hq⟩ := hx (get s) (hget s hs)
  exact ⟨hset s _ hs ht, hq⟩

end Keeps

/-! ## What actions answer -/

/-- From whatever state, the answers of the action have a property, and so have its errors. -/
def Answers (x : Action σ α) (Q : α → Prop) (E : Error → Prop) : Prop :=
  ∀ s, (∀ a, (x s).1 = .ok a → Q a) ∧ ∀ e, (x s).1 = .error e → E e

namespace Answers

variable {Q : α → Prop} {R : β → Prop} {E : Error → Prop}

theorem lift {r : Except Error α} (hok : ∀ a, r = .ok a → Q a) (herror : ∀ e, r = .error e → E e) :
    Answers (lift r : Action σ α) Q E :=
  fun _ => ⟨hok, herror⟩

theorem pure {a : α} (h : Q a) : Answers (pure a : Action σ α) Q E := by
  refine lift (fun b hb => ?_) fun e he => ?_
  · cases hb
    exact h
  · cases he

theorem throw {e : Error} (h : E e) : Answers (throw e : Action σ α) Q E := by
  refine lift (fun a ha => ?_) fun e' he => ?_
  · cases ha
  · cases he
    exact h

theorem get : Answers (get : Action σ σ) (fun _ => True) E := by
  refine fun s => ⟨fun _ _ => trivial, fun e he => ?_⟩
  cases he

theorem modify (f : σ → σ) : Answers (modify f : Action σ PUnit) (fun _ => True) E := by
  refine fun s => ⟨fun _ _ => trivial, fun e he => ?_⟩
  cases he

theorem bind {x : Action σ α} {f : α → Action σ β} (hx : Answers x Q E)
    (hf : ∀ a, Q a → Answers (f a) R E) : Answers (x >>= f) R E := by
  intro s
  obtain ⟨hok, herror⟩ := hx s
  rw [bind_run]
  cases hr : x s with
  | mk r t =>
    rw [hr] at hok herror
    cases r with
    | error e =>
      exact throw (herror e rfl) t
    | ok a => exact hf a (hok a rfl) t

theorem map {x : Action σ α} {f : α → β} (hx : Answers x (fun a => R (f a)) E) :
    Answers (f <$> x) R E := by
  rw [map_eq_pure_bind]
  exact hx.bind fun a ha => pure ha

theorem mono {Q' : α → Prop} {E' : Error → Prop} {x : Action σ α} (hx : Answers x Q E)
    (hok : ∀ a, Q a → Q' a) (herror : ∀ e, E e → E' e) : Answers x Q' E' :=
  fun s => ⟨fun a ha => hok a ((hx s).1 a ha), fun e he => herror e ((hx s).2 e he)⟩

/-- Acting on a part of the state gives the same answers. -/
theorem on {get : σ → τ} {set : σ → τ → σ} {x : Action τ α} (hx : Answers x Q E) :
    Answers (on get set x) Q E :=
  fun s => hx (get s)

end Answers

/-! ## Actions that fail or are done -/

/-- From states with one property the action fails and leaves a state with another one; or something is
true of its answer and of the state that it leaves. -/
def Reaches (P E : σ → Prop) (x : Action σ α) (done : α → σ → Prop) : Prop :=
  ∀ s, P s → (∃ e t, x s = (.error e, t) ∧ E t) ∨ ∃ a t, x s = (.ok a, t) ∧ done a t

namespace Reaches

variable {P E : σ → Prop} {Q : α → Prop} {between : α → σ → Prop} {done : β → σ → Prop}

theorem pure {a : β} (h : ∀ s, P s → done a s) : Reaches P E (pure a) done :=
  fun s hs => .inr ⟨a, s, rfl, h s hs⟩

theorem throw {e : Error} (h : ∀ s, P s → E s) : Reaches P E (throw e : Action σ β) done :=
  fun s hs => .inl ⟨e, s, rfl, h s hs⟩

/-- What is reached first is where the rest begins. -/
theorem bind {x : Action σ α} {f : α → Action σ β} (hx : Reaches P E x between)
    (hf : ∀ a, Reaches (between a) E (f a) done) : Reaches P E (x >>= f) done := by
  intro s hs
  rcases hx s hs with ⟨e, t, hr, ht⟩ | ⟨a, t, hr, ht⟩
  · exact .inl ⟨e, t, bind_error hr, ht⟩
  · rw [bind_ok hr]
    exact hf a t ht

/-- What changes nothing may go before. -/
theorem after {x : Action σ α} {f : α → Action σ β} (hx : Keeps P x Q) (h : ∀ s, P s → E s)
    (hf : ∀ a, Q a → Reaches P E (f a) done) : Reaches P E (x >>= f) done := by
  intro s hs
  obtain ⟨ht, hq⟩ := hx s hs
  cases hr : x s with
  | mk r t =>
    rw [hr] at ht hq
    cases r with
    | error e => exact .inl ⟨e, t, bind_error hr, h t ht⟩
    | ok a =>
      rw [bind_ok hr]
      exact hf a (hq a rfl) t ht

theorem mono {done' : β → σ → Prop} {x : Action σ β} (hx : Reaches P E x done)
    (h : ∀ b t, done b t → done' b t) : Reaches P E x done' := by
  intro s hs
  rcases hx s hs with hfailed | ⟨b, t, hr, hdone⟩
  · exact .inl hfailed
  · exact .inr ⟨b, t, hr, h b t hdone⟩

theorem on {get : σ → τ} {set : σ → τ → σ} {P' E' : τ → Prop} {done' : β → τ → Prop} {x : Action τ β}
    (hx : Reaches P' E' x done') (hget : ∀ s, P s → P' (get s))
    (hset : ∀ s t, P s → E' t → E (set s t)) (hdone : ∀ b s t, P s → done' b t → done b (set s t)) :
    Reaches P E (on get set x) done := by
  intro s hs
  rcases hx (get s) (hget s hs) with ⟨e, t, hr, ht⟩ | ⟨b, t, hr, hd⟩
  · refine .inl ⟨e, set s t, ?_, hset s t hs ht⟩
    rw [on_run, hr]
  · refine .inr ⟨b, set s t, ?_, hdone b s t hs hd⟩
    rw [on_run, hr]

end Reaches

/-- The action keeps a property of the state where it fails; where it is done, something is true of its
answer and of the state that it leaves. -/
def Commits (P : σ → Prop) (x : Action σ α) (done : α → σ → Prop) : Prop := Reaches P P x done

namespace Commits

variable {P : σ → Prop} {Q : α → Prop} {done : α → σ → Prop} {done' : β → σ → Prop}

theorem throw (e : Error) : Commits P (throw e : Action σ α) done := Reaches.throw fun _ hs => hs

/-- What changes nothing may go before. -/
theorem after {x : Action σ α} {f : α → Action σ β} (hx : Keeps P x Q)
    (hf : ∀ a, Q a → Commits P (f a) done') : Commits P (x >>= f) done' :=
  Reaches.after hx (fun _ hs => hs) hf

/-- Nothing may come behind but an answer. -/
theorem answer {x : Action σ α} {g : α → β} (hx : Commits P x fun a t => done' (g a) t) :
    Commits P (x >>= fun a => pure (g a)) done' :=
  Reaches.bind hx fun _ => .pure fun _ ht => ht

theorem map {x : Action σ α} {g : α → β} (hx : Commits P x fun a t => done' (g a) t) :
    Commits P (g <$> x) done' := by
  rw [map_eq_pure_bind]
  exact hx.answer

theorem mono {done'' : α → σ → Prop} {x : Action σ α} (hx : Commits P x done)
    (h : ∀ a t, done a t → done'' a t) : Commits P x done'' := Reaches.mono hx h

/-- What an action commits to a part of the state, it commits when it acts on that part of it. -/
theorem on {get : σ → τ} {set : σ → τ → σ} {P' : τ → Prop} {done' : α → τ → Prop} {x : Action τ α}
    (hx : Commits P' x done') (hget : ∀ s, P s → P' (get s))
    (hset : ∀ s t, P s → P' t → P (set s t)) (hdone : ∀ a s t, P s → done' a t → done a (set s t)) :
    Commits P (on get set x) done := Reaches.on hx hget hset hdone

end Commits

/-! ## What actions lead to -/

/-- From states with one property the action leads to states with another one, whatever its answer. -/
def Leads (P P' : σ → Prop) (x : Action σ α) : Prop := ∀ s, P s → P' (x s).2

namespace Leads

variable {P P' P'' : σ → Prop} {Q : α → Prop}

theorem of_keeps {x : Action σ α} (hx : Keeps P x Q) (h : ∀ s, P s → P' s) : Leads P P' x :=
  fun s hs => h _ (hx s hs).1

/-- What keeps the first property may go before. -/
theorem after {x : Action σ α} {f : α → Action σ β} (hx : Keeps P x Q) (h : ∀ s, P s → P' s)
    (hf : ∀ a, Q a → Leads P P' (f a)) : Leads P P' (x >>= f) := by
  intro s hs
  obtain ⟨ht, hq⟩ := hx s hs
  rw [bind_run]
  cases hr : x s with
  | mk r t =>
    rw [hr] at ht hq
    cases r with
    | error e => exact h t ht
    | ok a => exact hf a (hq a rfl) t ht

/-- A property in between leads to the last one too, since the first part may fail. -/
theorem bind {x : Action σ α} {f : α → Action σ β} (hx : Leads P P' x)
    (hq : ∀ s a, (x s).1 = .ok a → Q a) (h : ∀ s, P' s → P'' s)
    (hf : ∀ a, Q a → Leads P' P'' (f a)) : Leads P P'' (x >>= f) := by
  intro s hs
  have ht := hx s hs
  have hq := hq s
  rw [bind_run]
  cases hr : x s with
  | mk r t =>
    rw [hr] at ht hq
    cases r with
    | error e => exact h t ht
    | ok a => exact hf a (hq a rfl) t ht

/-- Nothing may come behind but an answer. -/
theorem answer {x : Action σ α} {g : α → β} (hx : Leads P P' x) :
    Leads P P' (x >>= fun a => pure (g a)) :=
  hx.bind (fun _ _ _ => trivial) (fun _ h => h) fun _ _ _ h => h

theorem silently {x : Action σ α} (hx : Leads P P' x) : Leads P P' (Action.silently x) := hx

end Leads

/-! ## Two actions side by side -/

/-- From related states two actions give one answer, and related states again. -/
def Simulates (R : σ → τ → Prop) (x : Action σ α) (y : Action τ α) : Prop :=
  ∀ s t, R s t → (x s).1 = (y t).1 ∧ R (x s).2 (y t).2

namespace Simulates

variable {R : σ → τ → Prop}

theorem pure (a : α) : Simulates R (pure a) (pure a) := fun _ _ h => ⟨rfl, h⟩

theorem bind {x : Action σ α} {y : Action τ α} {f : α → Action σ β} {g : α → Action τ β}
    (hx : Simulates R x y) (hf : ∀ a, Simulates R (f a) (g a)) : Simulates R (x >>= f) (y >>= g) := by
  intro s t h
  obtain ⟨hanswer, hstate⟩ := hx s t h
  rw [bind_run, bind_run]
  cases hxs : x s with
  | mk r s =>
    cases hyt : y t with
    | mk q t =>
      rw [hxs, hyt] at hanswer hstate
      cases hanswer
      cases r with
      | error e => exact ⟨rfl, hstate⟩
      | ok a => exact hf a s t hstate

theorem map {x : Action σ α} {y : Action τ α} (hx : Simulates R x y) (f : α → β) :
    Simulates R (f <$> x) (f <$> y) := by
  intro s t h
  obtain ⟨hanswer, hstate⟩ := hx s t h
  rw [map_run, map_run]
  exact ⟨congrArg (Except.map f) hanswer, hstate⟩

/-- Both look at one result first; what follows is done where it is none to fail with. -/
theorem lift_bind {r : Except Error α} {f : α → Action σ β} {g : α → Action τ β}
    (hf : ∀ a, r = .ok a → Simulates R (f a) (g a)) :
    Simulates R (lift r >>= f) (lift r >>= g) := by
  intro s t h
  rw [bind_run, bind_run]
  cases r with
  | error e => exact ⟨rfl, h⟩
  | ok a => exact hf a rfl s t h

end Simulates

/-- Does an action for each item, whether or not the earlier ones fail, and gives all answers. -/
def all (f : α → Action σ β) : List α → σ → List (Except Error β) × σ
  | [], s => ([], s)
  | a :: as, s => ((f a s).1 :: (all f as (f a s).2).1, (all f as (f a s).2).2)

/-- Actions that keep side by side for each item do so for all. -/
theorem all_simulates {R : σ → τ → Prop} {f : α → Action σ β} {g : α → Action τ β} {as : List α}
    (h : ∀ a ∈ as, Simulates R (f a) (g a)) {s : σ} {t : τ} (hst : R s t) :
    (all f as s).1 = (all g as t).1 ∧ R (all f as s).2 (all g as t).2 := by
  induction as generalizing s t with
  | nil => exact ⟨rfl, hst⟩
  | cons a as ih =>
    obtain ⟨hanswer, hstate⟩ := h a List.mem_cons_self s t hst
    obtain ⟨hanswers, hstates⟩ := ih (fun b hb => h b (List.mem_cons_of_mem _ hb)) hstate
    exact ⟨by rw [all, all, hanswer, hanswers], hstates⟩

/-- What is kept for each item is kept for all. -/
theorem all_keeps {P : σ → Prop} {f : α → Action σ β} {as : List α}
    (h : ∀ a ∈ as, Keeps P (f a) fun _ => True) {s : σ} (hs : P s) : P (all f as s).2 := by
  induction as generalizing s with
  | nil => exact hs
  | cons a as ih =>
    exact ih (fun b hb => h b (List.mem_cons_of_mem _ hb)) (h a List.mem_cons_self s hs).1

end EndToEnd.Action
