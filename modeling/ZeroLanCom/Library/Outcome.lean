import Mathlib.Data.List.Forall2
import Mathlib.Tactic.Common

/-!
# Code that may throw while it works on a state

An exception does not undo what was done before it. An `Outcome` therefore keeps
the state reached next to the exception. The two loops below are the range-for
of a statement language with exceptions: one runs a body for each element of a
list, the other updates each element of a container in place.
-/

namespace Throwing

variable {ε σ τ α : Type*}

/-- The end of a piece of code on `σ`: normal, or with an exception in flight. -/
inductive Outcome (ε σ : Type*) where
  | done (s : σ)
  | threw (e : ε) (s : σ)
  deriving DecidableEq, Repr

/-- The state reached, whether or not an exception is in flight. -/
def Outcome.state : Outcome ε σ → σ
  | .done s => s
  | .threw _ s => s

/-- No exception is in flight. -/
def Outcome.returned : Outcome ε σ → Bool
  | .done _ => true
  | .threw _ _ => false

/-- Carry a state back into the larger state it is a part of. -/
def Outcome.map (f : σ → τ) : Outcome ε σ → Outcome ε τ
  | .done s => .done (f s)
  | .threw e s => .threw e (f s)

/-- Sequencing: what follows is skipped while an exception is in flight. -/
def Outcome.bind (o : Outcome ε σ) (next : σ → Outcome ε σ) : Outcome ε σ :=
  match o with
  | .done s => next s
  | .threw e s => .threw e s

/-- A handler that stops exactly the exceptions it names. -/
def Outcome.catching (o : Outcome ε σ) (handles : ε → Bool) : Outcome ε σ :=
  match o with
  | .done s => .done s
  | .threw e s => if handles e then .done s else .threw e s

@[simp] theorem Outcome.state_done (s : σ) : (Outcome.done s : Outcome ε σ).state = s := rfl

@[simp] theorem Outcome.state_threw (e : ε) (s : σ) : (Outcome.threw e s).state = s := rfl

/-- An outcome that returned is done with its own state. -/
theorem Outcome.returned_iff {o : Outcome ε σ} : o.returned = true ↔ o = .done o.state := by
  cases o <;> simp [returned]

@[simp] theorem Outcome.map_done (f : σ → τ) (s : σ) :
    (Outcome.done s : Outcome ε σ).map f = .done (f s) := rfl

@[simp] theorem Outcome.map_threw (f : σ → τ) (e : ε) (s : σ) :
    (Outcome.threw e s).map f = .threw e (f s) := rfl

@[simp] theorem Outcome.state_map (f : σ → τ) (o : Outcome ε σ) :
    (o.map f).state = f o.state := by
  cases o <;> rfl

@[simp] theorem Outcome.done_bind (s : σ) (next : σ → Outcome ε σ) :
    (Outcome.done s).bind next = next s := rfl

@[simp] theorem Outcome.threw_bind (e : ε) (s : σ) (next : σ → Outcome ε σ) :
    (Outcome.threw e s).bind next = .threw e s := rfl

/-- Catching an exception does not change the state it left behind. -/
@[simp] theorem Outcome.state_catching (o : Outcome ε σ) (handles : ε → Bool) :
    (o.catching handles).state = o.state := by
  cases o with
  | done s => rfl
  | threw e s =>
    simp only [catching]
    split <;> rfl

/-- A handler that names everything that may be thrown lets nothing through. -/
theorem Outcome.catching_eq_done {o : Outcome ε σ} {handles : ε → Bool}
    (h : ∀ e s, o = .threw e s → handles e = true) : o.catching handles = .done o.state := by
  cases o with
  | done s => rfl
  | threw e s => rw [catching, if_pos (h e s rfl), state_threw]

/-- A sequence ends normally exactly when both of its halves do. -/
theorem Outcome.bind_eq_done_iff {o : Outcome ε σ} {next : σ → Outcome ε σ} {s' : σ} :
    o.bind next = .done s' ↔ ∃ s, o = .done s ∧ next s = .done s' := by
  cases o with
  | done s => simp
  | threw e s => simp

/-- `for (a : as) body(a)`; the first exception leaves the loop. -/
def forEach (body : α → σ → Outcome ε σ) : List α → σ → Outcome ε σ
  | [], s => .done s
  | a :: as, s => (body a s).bind (forEach body as)

@[simp] theorem forEach_nil (body : α → σ → Outcome ε σ) (s : σ) :
    forEach body [] s = .done s := rfl

/-- A loop runs its body on the first element, and goes on from there if that returns. -/
theorem forEach_cons (body : α → σ → Outcome ε σ) (a : α) (as : List α) (s : σ) :
    forEach body (a :: as) s = (body a s).bind (forEach body as) := rfl

/-- The invariant rule of the loop, also for a run that an exception cuts short. -/
theorem forEach_invariant {body : α → σ → Outcome ε σ} {P : σ → Prop} {as : List α}
    (hbody : ∀ a ∈ as, ∀ s, P s → P (body a s).state) {s : σ} (hs : P s) :
    P (forEach body as s).state := by
  induction as generalizing s with
  | nil => exact hs
  | cons a as ih =>
    have hhead := hbody a (List.mem_cons_self ..) s hs
    have htail := ih (fun b hb => hbody b (List.mem_cons_of_mem a hb)) (s := (body a s).state)
    rw [forEach_cons]
    cases ho : body a s with
    | done s' => simpa [ho] using htail hhead
    | threw e s' => simpa [ho] using hhead

/-- A loop ends normally when its body does from every state that meets the invariant. -/
theorem forEach_returns {body : α → σ → Outcome ε σ} {P : σ → Prop} {as : List α}
    (hbody : ∀ a ∈ as, ∀ s, P s → ∃ s', body a s = .done s' ∧ P s') {s : σ} (hs : P s) :
    ∃ s', forEach body as s = .done s' ∧ P s' := by
  induction as generalizing s with
  | nil => exact ⟨s, rfl, hs⟩
  | cons a as ih =>
    obtain ⟨s', hs', hP⟩ := hbody a (List.mem_cons_self ..) s hs
    rw [forEach_cons, hs']
    exact ih (fun b hb => hbody b (List.mem_cons_of_mem a hb)) hP

/-- Two loops in a row are one loop over both lists. -/
theorem forEach_append (body : α → σ → Outcome ε σ) (as bs : List α) (s : σ) :
    forEach body (as ++ bs) s = (forEach body as s).bind (forEach body bs) := by
  induction as generalizing s with
  | nil => rfl
  | cons a as ih =>
    rw [List.cons_append, forEach_cons, forEach_cons]
    cases body a s with
    | done s' => exact ih s'
    | threw e s' => rfl

/-- An exception leaves the loop at one of its elements, after the body has returned on all of
the elements before it. -/
theorem forEach_eq_threw_iff {body : α → σ → Outcome ε σ} {as : List α} {s s' : σ} {e : ε} :
    forEach body as s = .threw e s' ↔ ∃ before a after s₁, as = before ++ a :: after ∧
      forEach body before s = .done s₁ ∧ body a s₁ = .threw e s' := by
  constructor
  · intro h
    induction as generalizing s with
    | nil => cases h
    | cons a as ih =>
      rw [forEach_cons] at h
      cases ho : body a s with
      | threw e' s₁ =>
        rw [ho, Outcome.threw_bind] at h
        cases h
        exact ⟨[], a, as, s, rfl, rfl, ho⟩
      | done s₁ =>
        rw [ho, Outcome.done_bind] at h
        obtain ⟨before, b, after, s₂, rfl, hdone, hthrew⟩ := ih h
        exact ⟨a :: before, b, after, s₂, rfl, by rw [forEach_cons, ho]; exact hdone, hthrew⟩
  · rintro ⟨before, a, after, s₁, rfl, hdone, hthrew⟩
    rw [forEach_append, hdone, Outcome.done_bind, forEach_cons, hthrew, Outcome.threw_bind]

/-- A loop over the images of elements. -/
theorem forEach_map {β : Type*} (body : α → σ → Outcome ε σ) (f : β → α) (bs : List β) (s : σ) :
    forEach body (bs.map f) s = forEach (fun b => body (f b)) bs s := by
  induction bs generalizing s with
  | nil => rfl
  | cons b bs ih =>
    rw [List.map_cons, forEach_cons, forEach_cons]
    cases body (f b) s with
    | done s' => exact ih s'
    | threw e s' => rfl

/-- A loop over lists of elements is one loop over all of the elements. -/
theorem forEach_flatMap {β : Type*} (body : α → σ → Outcome ε σ) (elems : β → List α)
    (bs : List β) (s : σ) :
    forEach (fun b => forEach body (elems b)) bs s = forEach body (bs.flatMap elems) s := by
  induction bs generalizing s with
  | nil => rfl
  | cons b bs ih =>
    rw [List.flatMap_cons, forEach_append, forEach_cons]
    cases forEach body (elems b) s with
    | done s' => exact ih s'
    | threw e s' => rfl

/-- `for (auto &x : xs) body(x)`: the elements after a throwing one stay as they are. -/
def eachElem (body : σ → Outcome ε σ) : List σ → Outcome ε (List σ)
  | [] => .done []
  | x :: xs =>
    match body x with
    | .done y => (eachElem body xs).map (y :: ·)
    | .threw e y => .threw e (y :: xs)

@[simp] theorem eachElem_nil (body : σ → Outcome ε σ) : eachElem body [] = .done [] := rfl

/-- Every element is left alone or passed through the body once. -/
theorem eachElem_state_forall₂ {body : σ → Outcome ε σ} {R : σ → σ → Prop}
    (hrefl : ∀ x, R x x) (hbody : ∀ x, R x (body x).state) (xs : List σ) :
    List.Forall₂ R xs (eachElem body xs).state := by
  induction xs with
  | nil => exact .nil
  | cons x xs ih =>
    have hx := hbody x
    rw [eachElem]
    cases ho : body x with
    | done y =>
      rw [ho] at hx
      simpa using And.intro hx ih
    | threw e y =>
      rw [ho] at hx
      exact .cons hx (List.forall₂_same.mpr fun z _ => hrefl z)

/-- The in-place loop ends normally exactly when the body does on every element. -/
theorem eachElem_eq_done_iff {body : σ → Outcome ε σ} {xs ys : List σ} :
    eachElem body xs = .done ys ↔ List.Forall₂ (fun x y => body x = .done y) xs ys := by
  induction xs generalizing ys with
  | nil => simp [eq_comm]
  | cons x xs ih =>
    rw [eachElem]
    cases hx : body x with
    | threw e y => simp [List.forall₂_cons_left_iff, hx]
    | done y =>
      cases hxs : eachElem body xs with
      | threw e zs =>
        have hnone : ∀ us, ¬ List.Forall₂ (fun x y => body x = .done y) xs us := by
          intro us hus
          rw [← ih, hxs] at hus
          cases hus
        simp [List.forall₂_cons_left_iff, hnone]
      | done zs =>
        simp only [Outcome.map_done, Outcome.done.injEq, List.forall₂_cons_left_iff, hx, ← ih, hxs]
        constructor
        · rintro rfl
          exact ⟨y, zs, rfl, rfl, rfl⟩
        · rintro ⟨_, _, rfl, rfl, rfl⟩
          rfl

/-- Elementwise relations compose through the list of the middle elements. -/
theorem forall₂_comp_iff {R S : σ → σ → Prop} {xs zs : List σ} :
    List.Forall₂ (fun x z => ∃ y, R x y ∧ S y z) xs zs ↔
      ∃ ys, List.Forall₂ R xs ys ∧ List.Forall₂ S ys zs := by
  constructor
  · intro h
    induction h with
    | nil => exact ⟨[], .nil, .nil⟩
    | cons h _ ih =>
      obtain ⟨y, hxy, hyz⟩ := h
      obtain ⟨ys, hxs, hzs⟩ := ih
      exact ⟨y :: ys, .cons hxy hxs, .cons hyz hzs⟩
  · rintro ⟨ys, hxy, hyz⟩
    induction hxy generalizing zs with
    | nil => cases hyz; exact .nil
    | cons h _ ih =>
      cases hyz with
      | cons h' hrest => exact .cons ⟨_, h, h'⟩ (ih hrest)

/-- The in-place loop ends normally when the body does on every element. -/
theorem eachElem_returns {body : σ → Outcome ε σ} {P Q : σ → Prop}
    (hbody : ∀ x, P x → ∃ y, body x = .done y ∧ Q y) {xs : List σ} (hxs : ∀ x ∈ xs, P x) :
    ∃ ys, eachElem body xs = .done ys ∧ ∀ y ∈ ys, Q y := by
  induction xs with
  | nil => exact ⟨[], rfl, fun _ h => absurd h List.not_mem_nil⟩
  | cons x xs ih =>
    obtain ⟨y, hy, hQ⟩ := hbody x (hxs x (List.mem_cons_self ..))
    obtain ⟨ys, hys, hQs⟩ := ih fun z hz => hxs z (List.mem_cons_of_mem x hz)
    refine ⟨y :: ys, by simp [eachElem, hy, hys], fun z hz => ?_⟩
    rcases List.mem_cons.mp hz with rfl | hz
    · exact hQ
    · exact hQs z hz

/-- Every element on the right of an elementwise relation has its partner on the left. -/
theorem forall₂_mem_right {R : σ → τ → Prop} {xs : List σ} {ys : List τ}
    (h : List.Forall₂ R xs ys) {y : τ} (hy : y ∈ ys) : ∃ x ∈ xs, R x y := by
  induction h with
  | nil => exact absurd hy List.not_mem_nil
  | cons hr _ ih =>
    rcases List.mem_cons.mp hy with rfl | hy
    · exact ⟨_, List.mem_cons_self .., hr⟩
    · obtain ⟨x, hx, hxy⟩ := ih hy
      exact ⟨x, List.mem_cons_of_mem _ hx, hxy⟩

/-- Every element on the left has its partner on the right. -/
theorem forall₂_mem_left {R : σ → τ → Prop} {xs : List σ} {ys : List τ}
    (h : List.Forall₂ R xs ys) {x : σ} (hx : x ∈ xs) : ∃ y ∈ ys, R x y :=
  (forall₂_mem_right h.flip hx).imp fun _ hy => hy

/-- Partners stand at the same position. -/
theorem forall₂_getElem? {R : σ → τ → Prop} {xs : List σ} {ys : List τ}
    (h : List.Forall₂ R xs ys) {i : Nat} {x : σ} (hx : xs[i]? = some x) :
    ∃ y, ys[i]? = some y ∧ R x y := by
  induction h generalizing i with
  | nil => cases hx
  | cons hr _ ih =>
    cases i with
    | zero =>
      cases hx
      exact ⟨_, rfl, hr⟩
    | succ i => exact ih hx

/-- An exception of the in-place loop comes from one of its elements. -/
theorem body_threw_of_eachElem {body : σ → Outcome ε σ} {xs ys : List σ} {e : ε}
    (h : eachElem body xs = .threw e ys) : ∃ x ∈ xs, ∃ y, body x = .threw e y := by
  induction xs generalizing ys with
  | nil => cases h
  | cons x xs ih =>
    rw [eachElem] at h
    cases hx : body x with
    | threw e' y =>
      rw [hx] at h
      cases h
      exact ⟨x, List.mem_cons_self .., y, hx⟩
    | done y =>
      cases hxs : eachElem body xs with
      | done zs => simp [hx, hxs] at h
      | threw e' zs =>
        simp only [hx, hxs, Outcome.map_threw, Outcome.threw.injEq] at h
        obtain ⟨rfl, _⟩ := h
        obtain ⟨x', hx', hthrew⟩ := ih hxs
        exact ⟨x', List.mem_cons_of_mem x hx', hthrew⟩

/-- A loop over in-place loops acts on each element by itself: it moves every element
along a preorder that each single body respects, even when an exception cuts it short. -/
theorem forEach_eachElem_forall₂ {body : α → σ → Outcome ε σ} {R : σ → σ → Prop}
    (hrefl : ∀ x, R x x) (htrans : ∀ x y z, R x y → R y z → R x z) {as : List α}
    (hbody : ∀ a ∈ as, ∀ x, R x (body a x).state) (xs : List σ) :
    List.Forall₂ R xs (forEach (fun a => eachElem (body a)) as xs).state := by
  refine forEach_invariant (P := fun ys => List.Forall₂ R xs ys) ?_
    (List.forall₂_same.mpr fun x _ => hrefl x)
  intro a ha ys hys
  have hstep := eachElem_state_forall₂ hrefl (hbody a ha) ys
  refine (forall₂_comp_iff.mpr ⟨ys, hys, hstep⟩).imp ?_
  rintro x z ⟨y, hxy, hyz⟩
  exact htrans x y z hxy hyz

/-- What every single body keeps of an element, the nested loops keep of all of them. -/
theorem forEach_eachElem_mem {body : α → σ → Outcome ε σ} {P : σ → Prop} {as : List α}
    (hbody : ∀ a ∈ as, ∀ x, P x → P (body a x).state) {xs : List σ} (hxs : ∀ x ∈ xs, P x) :
    ∀ y ∈ (forEach (fun a => eachElem (body a)) as xs).state, P y := by
  intro y hy
  have hall := forEach_eachElem_forall₂ (R := fun x y => P x → P y) (fun _ => id)
    (fun _ _ _ hxy hyz hx => hyz (hxy hx)) hbody xs
  obtain ⟨x, hx, hxy⟩ := forall₂_mem_right hall hy
  exact hxy (hxs x hx)

/-- A normal end of the nested loops is a normal end of the outer loop on each element. -/
theorem forEach_eachElem_eq_done_iff {body : α → σ → Outcome ε σ} {as : List α}
    {xs ys : List σ} :
    forEach (fun a => eachElem (body a)) as xs = .done ys ↔
      List.Forall₂ (fun x y => forEach body as x = .done y) xs ys := by
  induction as generalizing xs with
  | nil => simp only [forEach_nil, Outcome.done.injEq, List.forall₂_eq_eq_eq]
  | cons a as ih =>
    simp only [forEach_cons, Outcome.bind_eq_done_iff, eachElem_eq_done_iff, ih, forall₂_comp_iff]

end Throwing
