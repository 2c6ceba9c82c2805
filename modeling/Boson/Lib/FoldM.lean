import Mathlib.Data.List.Basic

/-!
# Loops that may fail

A loop over a list whose body may throw is `List.foldlM` in `Except`. `failsAs` forgets everything
about an outcome but the kind of its error.

* `failsAs_foldlM`: if the kind of error of a step depends only on the element, the first element
  with an error decides how the loop fails.
* `foldlM_keeps`, `foldlM_last`: what every step keeps, and what the last of some steps sets.
* `foldlM_collect`: a loop that decodes what was encoded.
-/

namespace FoldM

universe u v

variable {α β γ : Type u} {ε κ : Type v} {f : β → α → Except ε β} {b b' : β} {l : List α}

/-- How a computation fails, in the words of `cls`; `none` if it does not. -/
def failsAs (cls : ε → κ) : Except ε α → Option κ
  | .ok _ => none
  | .error e => some (cls e)

variable {cls : ε → κ}

@[simp] theorem failsAs_ok (a : α) : failsAs cls (.ok a : Except ε α) = none := rfl

@[simp] theorem failsAs_error (e : ε) : failsAs cls (.error e : Except ε α) = some (cls e) := rfl

theorem failsAs_eq_none_iff {x : Except ε α} : failsAs cls x = none ↔ ∃ a, x = .ok a := by
  cases x <;> simp

@[simp] theorem failsAs_map {x : Except ε α} {g : α → β} : failsAs cls (g <$> x) =
    failsAs cls x := by
  cases x <;> rfl

theorem map_eq_ok_iff {x : Except ε α} {g : α → β} {c : β} : g <$> x = .ok c ↔
    ∃ a, x = .ok a ∧ g a = c := by
  cases x <;> simp [Functor.map, Except.map]

theorem bind_eq_ok_iff {x : Except ε α} {g : α → Except ε β} {c : β} :
    x >>= g = .ok c ↔ ∃ a, x = .ok a ∧ g a = .ok c := by
  cases x <;> simp [Bind.bind, Except.bind]

theorem failsAs_bind {x : Except ε α} {g : α → Except ε β} {o : Option κ}
    (hg : ∀ a, x = .ok a → failsAs cls (g a) = o) :
    failsAs cls (x >>= g) = (failsAs cls x).or o := by
  cases x with
  | error e => rfl
  | ok a => exact hg a rfl

/-- The first element whose step fails decides how the loop fails. -/
theorem failsAs_foldlM {P : β → Prop} {v : α → Option κ}
    (hv : ∀ b a, P b → failsAs cls (f b a) = v a) (hP : ∀ b a b', f b a = .ok b' → P b → P b')
    (hb : P b) : failsAs cls (l.foldlM f b) = l.findSome? v := by
  induction l generalizing b with
  | nil => rfl
  | cons a l ih =>
    rw [List.foldlM_cons, List.findSome?_cons, ← hv b a hb]
    cases hf : f b a with
    | error e => rfl
    | ok c => exact ih (hP b a c hf hb)

/-- A property that every step keeps holds after the loop. -/
theorem foldlM_keeps {P : β → Prop} (hstep : ∀ b a b', f b a = .ok b' → P b → P b')
    (h : l.foldlM f b = .ok b') (hb : P b) : P b' := by
  induction l generalizing b with
  | nil =>
    cases h
    exact hb
  | cons a l ih =>
    rw [List.foldlM_cons] at h
    cases hf : f b a with
    | error e =>
      rw [hf] at h
      cases h
    | ok c =>
      rw [hf] at h
      exact ih h (hstep b a c hf hb)

/-- What the elements that `p` selects set, and the others leave, is what the last of them sets. -/
theorem foldlM_last {P : β → Prop} (g : β → γ) (p : α → Bool) (set : α → γ)
    (hP : ∀ b a b', f b a = .ok b' → P b → P b')
    (hstep : ∀ b a b', P b → f b a = .ok b' → g b' = if p a then set a else g b)
    (h : l.foldlM f b = .ok b') (hb : P b) : g b' = ((l.filter p).getLast?.map set).getD (g b) := by
  induction l generalizing b with
  | nil =>
    cases h
    rfl
  | cons a l ih =>
    rw [List.foldlM_cons] at h
    cases hf : f b a with
    | error e =>
      rw [hf] at h
      cases h
    | ok c =>
      rw [hf] at h
      rw [ih h (hP b a c hf hb), hstep b a c hb hf]
      by_cases hp : p a = true
      · rw [List.filter_cons_of_pos hp, if_pos hp]
        cases hl : (l.filter p).getLast? with
        | none => simp [List.getLast?_eq_none_iff.mp hl]
        | some y =>
          obtain ⟨ys, hys⟩ := List.getLast?_eq_some_iff.mp hl
          rw [hys, ← List.cons_append, List.getLast?_concat, Option.map_some]
          rfl
      · rw [List.filter_cons_of_neg hp, if_neg hp]

/-- A step that does not fail. -/
theorem foldlM_cons_ok {a : α} (h : f b a = .ok b') : (a :: l).foldlM f b = l.foldlM f b' := by
  rw [List.foldlM_cons, h]
  rfl

/-- A loop over what was encoded collects what is decoded. -/
theorem foldlM_collect {δ : Type u} {enc : δ → α} {dec : δ → γ} (mk : List γ → β) {ds : List δ}
    (h : ∀ d ∈ ds, ∀ acc, f (mk acc) (enc d) = .ok (mk (acc ++ [dec d]))) (acc : List γ) :
    (ds.map enc).foldlM f (mk acc) = .ok (mk (acc ++ ds.map dec)) := by
  induction ds generalizing acc with
  | nil =>
    rw [List.map_nil, List.map_nil, List.append_nil]
    rfl
  | cons d ds ih =>
    rw [List.forall_mem_cons] at h
    rw [List.map_cons, foldlM_cons_ok (h.1 acc), ih h.2, List.append_assoc]
    rfl

/-- A loop that collects fails only if a step does. -/
theorem mapM_ok {g : α → Except ε β} (h : ∀ a ∈ l, ∃ c, g a = .ok c) :
    ∃ cs, l.mapM g = .ok cs ∧ cs.length = l.length := by
  induction l with
  | nil => exact ⟨[], rfl, rfl⟩
  | cons a l ih =>
    obtain ⟨c, hc⟩ := h a List.mem_cons_self
    obtain ⟨cs, hcs, hlen⟩ := ih fun a ha => h a (List.mem_cons_of_mem _ ha)
    refine ⟨c :: cs, ?_, by simp [hlen]⟩
    rw [List.mapM_cons, hc, hcs]
    rfl

/-- What a loop collects stems from its elements. -/
theorem mem_mapM {g : α → Except ε β} {cs : List β} (h : l.mapM g = .ok cs) :
    ∀ c ∈ cs, ∃ a ∈ l, g a = .ok c := by
  induction l generalizing cs with
  | nil =>
    cases h
    simp
  | cons a l ih =>
    rw [List.mapM_cons] at h
    obtain ⟨c, hc, h⟩ := bind_eq_ok_iff.mp h
    obtain ⟨cs', hcs, h⟩ := bind_eq_ok_iff.mp h
    cases h
    refine List.forall_mem_cons.mpr ⟨⟨a, List.mem_cons_self, hc⟩, fun c' hc' => ?_⟩
    obtain ⟨a', ha', heq⟩ := ih hcs c' hc'
    exact ⟨a', List.mem_cons_of_mem _ ha', heq⟩

/-- A loop that collects has, at the place of each of its elements, what this gives. -/
theorem zip_mapM {g : α → Except ε β} {cs : List β} (h : l.mapM g = .ok cs) :
    (∀ a ∈ l, ∃ c, (a, c) ∈ l.zip cs) ∧ ∀ a c, (a, c) ∈ l.zip cs → g a = .ok c := by
  induction l generalizing cs with
  | nil => simp
  | cons a l ih =>
    rw [List.mapM_cons] at h
    obtain ⟨c, hc, h⟩ := bind_eq_ok_iff.mp h
    obtain ⟨cs', hcs, h⟩ := bind_eq_ok_iff.mp h
    cases h
    obtain ⟨hall, hzip⟩ := ih hcs
    change (∀ a' ∈ a :: l, ∃ c', (a', c') ∈ (a, c) :: l.zip cs') ∧
      ∀ a' c', (a', c') ∈ (a, c) :: l.zip cs' → _
    refine ⟨List.forall_mem_cons.mpr ⟨⟨c, List.mem_cons_self⟩, fun a' ha' => ?_⟩,
      fun a' c' hmem => ?_⟩
    · obtain ⟨c', hc'⟩ := hall a' ha'
      exact ⟨c', List.mem_cons_of_mem _ hc'⟩
    · obtain heq | hmem := List.mem_cons.mp hmem
      · cases heq
        exact hc
      · exact hzip a' c' hmem

end FoldM
