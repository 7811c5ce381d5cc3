import Mathlib.Data.List.Induction
import Mathlib.Data.List.Nodup

/-!
# Front parts, counting and repetitions

What the proofs about stores and queries need to know about lists: what is
taken and dropped by a test that holds of a front part only, what stands between
separators, how often a loop over a list without repetitions arrives at a result,
and what remains when equal elements are given once. And about steps that may
fail, which are the rest of what a parser or a compiler is made of: when a chain
of them succeeds.
-/

namespace TripleScript

variable {α β : Type}

/-! ## Front parts -/

/-- A test that holds of a front part of a list takes that part. -/
theorem takeWhile_eq_filter {p : α → Bool} {xs : List α}
    (h : xs.Pairwise fun x y => p y = true → p x = true) :
    xs.takeWhile p = xs.filter p := by
  induction xs with
  | nil => rfl
  | cons x xs ih =>
    obtain ⟨hx, hxs⟩ := List.pairwise_cons.mp h
    by_cases hp : p x = true
    · rw [List.takeWhile_cons_of_pos hp, List.filter_cons_of_pos hp, ih hxs]
    · rw [List.takeWhile_cons_of_neg hp, List.filter_cons_of_neg hp]
      exact (List.filter_eq_nil_iff.mpr fun y hy hpy => hp (hx y hy hpy)).symm

/-- A test that holds of a front part of a list drops that part. -/
theorem dropWhile_eq_filter {p : α → Bool} {xs : List α}
    (h : xs.Pairwise fun x y => p y = true → p x = true) :
    xs.dropWhile p = xs.filter (fun x => !p x) := by
  induction xs with
  | nil => rfl
  | cons x xs ih =>
    obtain ⟨hx, hxs⟩ := List.pairwise_cons.mp h
    by_cases hp : p x = true
    · rw [List.dropWhile_cons_of_pos hp, List.filter_cons_of_neg (by simp [hp]), ih hxs]
    · rw [List.dropWhile_cons_of_neg hp]
      refine (List.filter_eq_self.mpr fun y hy => ?_).symm
      rcases List.mem_cons.mp hy with rfl | hy
      · simpa using hp
      · have hpy : ¬p y = true := fun hpy => hp (hx y hy hpy)
        simpa using hpy

/-! ## Element by element -/

/-- What is in a list has a partner in a list related to it. -/
theorem exists_of_forall₂_of_mem {R : α → β → Prop} {xs : List α} {ys : List β}
    (h : List.Forall₂ R xs ys) {x : α} (hx : x ∈ xs) : ∃ y ∈ ys, R x y := by
  induction h with
  | nil => cases hx
  | cons hxy _ ih =>
    rcases List.mem_cons.mp hx with rfl | hx
    · exact ⟨_, List.mem_cons_self, hxy⟩
    · obtain ⟨y, hy, hR⟩ := ih hx
      exact ⟨y, List.mem_cons_of_mem _ hy, hR⟩

/-! ## Between separators -/

/-- No piece between separators has a separator in it. -/
theorem notMem_of_mem_splitOn [DecidableEq α] {x : α} {xs w : List α}
    (h : w ∈ xs.splitOn x) : x ∉ w := by
  induction xs generalizing w with
  | nil =>
    rw [List.splitOn_nil, List.mem_singleton] at h
    rw [h]
    exact List.not_mem_nil
  | cons y xs ih =>
    rw [List.splitOn_eq_splitOnP, List.splitOnP_cons_eq_if_modifyHead,
      ← List.splitOn_eq_splitOnP] at h
    split at h
    · rcases List.mem_cons.mp h with rfl | h
      · exact List.not_mem_nil
      · exact ih h
    · next hy =>
      -- the element goes to the first of the pieces behind it
      obtain ⟨v, vs, hvs⟩ := List.exists_cons_of_ne_nil (List.splitOn_ne_nil x xs)
      rw [hvs, List.modifyHead_cons] at h
      rcases List.mem_cons.mp h with rfl | h
      · rw [List.mem_cons, not_or]
        refine ⟨fun heq => hy (beq_iff_eq.mpr heq.symm), ih ?_⟩
        rw [hvs]
        exact List.mem_cons_self
      · refine ih ?_
        rw [hvs]
        exact List.mem_cons_of_mem v h

/-! ## Counting -/

/-- Where one element of a list without repetitions leads to a result once,
and no other element does, the list leads to it once. -/
theorem count_flatMap_of_nodup [DecidableEq α] [BEq β] [LawfulBEq β]
    {f : α → List β} {b : β} {a : α} {C : Prop} [Decidable C] {as : List α}
    (hnodup : as.Nodup)
    (h : ∀ a' ∈ as, (f a').count b = if a = a' ∧ C then 1 else 0) :
    (as.flatMap f).count b = if a ∈ as ∧ C then 1 else 0 := by
  induction as with
  | nil => simp
  | cons a' as ih =>
    obtain ⟨ha', hnodup⟩ := List.nodup_cons.mp hnodup
    rw [List.flatMap_cons, List.count_append, h a' List.mem_cons_self,
      ih hnodup fun a'' ha'' => h a'' (List.mem_cons_of_mem _ ha'')]
    by_cases haa : a = a'
    · subst haa
      simp [ha']
    · simp [haa]

/-! ## Equal elements once -/

/-- A new element at the end is no repetition. -/
theorem nodup_append_singleton {xs : List α} {x : α} (h : xs.Nodup) (hx : x ∉ xs) :
    (xs ++ [x]).Nodup := by
  rw [← List.concat_eq_append, List.nodup_concat]
  exact ⟨hx, h⟩

section EraseDups

variable [BEq α] [LawfulBEq α] {xs : List α} {x : α}

/-- A further element is kept if it is new. -/
theorem eraseDups_append_singleton [DecidableEq α] :
    (xs ++ [x]).eraseDups = if x ∈ xs then xs.eraseDups else xs.eraseDups ++ [x] := by
  have hone : [x].eraseDups = [x] := rfl
  rw [List.eraseDups_append]
  by_cases h : x ∈ xs
  · simp [h, List.removeAll]
  · simp [h, List.removeAll, hone]

/-- Further elements come after those that are kept. -/
theorem eraseDups_prefix_append (xs ys : List α) :
    xs.eraseDups <+: (xs ++ ys).eraseDups :=
  ⟨_, List.eraseDups_append.symm⟩

/-- **Nothing is kept twice.** -/
theorem nodup_eraseDups (xs : List α) : xs.eraseDups.Nodup := by
  classical
  induction xs using List.reverseRecOn with
  | nil => exact List.nodup_nil
  | append_singleton xs x ih =>
    rw [eraseDups_append_singleton]
    split
    case isTrue => exact ih
    case isFalse h => exact nodup_append_singleton ih (mt List.mem_eraseDups.mp h)

end EraseDups

/-! ## Steps that may fail -/

/-- A chain of steps succeeds when its first step does and the others do with
what it gives. -/
theorem bind_eq_ok_iff {ε α β : Type} {x : Except ε α} {f : α → Except ε β} {b : β} :
    (x >>= f) = .ok b ↔ ∃ a, x = .ok a ∧ f a = .ok b := by
  cases x with
  | error e => simp [bind, Except.bind]
  | ok a => simp [bind, Except.bind]

/-- It fails when its first step does, or the others with what it gives. -/
theorem bind_eq_error_iff {ε α β : Type} {x : Except ε α} {f : α → Except ε β} {e : ε} :
    (x >>= f) = .error e ↔ x = .error e ∨ ∃ a, x = .ok a ∧ f a = .error e := by
  cases x with
  | error e' => simp [bind, Except.bind]
  | ok a => simp [bind, Except.bind]

/-- What is made of the result of a step is there when the step succeeds. -/
theorem map_eq_ok_iff {ε α β : Type} {x : Except ε α} {f : α → β} {b : β} :
    x.map f = .ok b ↔ ∃ a, x = .ok a ∧ f a = b := by
  cases x with
  | error e => simp [Except.map]
  | ok a => simp [Except.map]

theorem map_eq_error_iff {ε α β : Type} {x : Except ε α} {f : α → β} {e : ε} :
    x.map f = .error e ↔ x = .error e := by
  cases x with
  | error e' => simp [Except.map]
  | ok a => simp [Except.map]

/-- What has no error in it has none with other errors. -/
theorem mapError_eq_ok_iff {ε ε' α : Type} {x : Except ε α} {f : ε → ε'} {a : α} :
    x.mapError f = .ok a ↔ x = .ok a := by
  cases x <;> simp [Except.mapError]

/-- Looks that all find something find the list of it. -/
theorem mapM_eq_some_map {α β : Type} {f : α → Option β} {g : α → β} {as : List α}
    (h : ∀ a ∈ as, f a = some (g a)) : as.mapM f = some (as.map g) := by
  induction as with
  | nil => rfl
  | cons a as ih =>
    rw [List.mapM_cons, h a List.mem_cons_self,
      ih fun b hb => h b (List.mem_cons_of_mem _ hb)]
    rfl

section MapM

variable {ε α β : Type} {f : α → Except ε β} {as : List α}

/-- **A row of steps succeeds** when each of them does. -/
theorem mapM_eq_ok_iff {bs : List β} :
    as.mapM f = .ok bs ↔ List.Forall₂ (fun a b => f a = .ok b) as bs := by
  induction as generalizing bs with
  | nil =>
    rw [List.mapM_nil, List.forall₂_nil_left_iff]
    exact ⟨fun h => (Except.ok.inj h).symm, fun h => h ▸ rfl⟩
  | cons a as ih =>
    rw [List.mapM_cons, bind_eq_ok_iff, List.forall₂_cons_left_iff]
    refine exists_congr fun b => ?_
    rw [bind_eq_ok_iff, ← exists_and_left]
    refine exists_congr fun bs' => ?_
    rw [ih]
    exact and_congr_right fun _ => and_congr_right fun _ =>
      ⟨fun h => (Except.ok.inj h).symm, fun h => h ▸ rfl⟩

/-- **It fails with the first step that does**, and the later ones do not
matter. -/
theorem mapM_eq_error_iff {e : ε} :
    as.mapM f = .error e ↔ ∃ before a after, as = before ++ a :: after
      ∧ (∀ b ∈ before, ∃ c, f b = .ok c) ∧ f a = .error e := by
  induction as with
  | nil =>
    refine ⟨nofun, ?_⟩
    rintro ⟨before, a, after, h, -⟩
    cases before <;> cases h
  | cons a as ih =>
    rw [List.mapM_cons, bind_eq_error_iff]
    constructor
    · rintro (h | ⟨b, hb, h⟩)
      · exact ⟨[], a, as, rfl, nofun, h⟩
      · rcases bind_eq_error_iff.mp h with h | ⟨bs, -, h⟩
        · obtain ⟨before, a', after, rfl, hbefore, ha'⟩ := ih.mp h
          exact ⟨a :: before, a', after, rfl,
            List.forall_mem_cons.mpr ⟨⟨b, hb⟩, hbefore⟩, ha'⟩
        · cases h
    · rintro ⟨_ | ⟨a', before⟩, a'', after, heq, hbefore, h⟩
      · cases heq
        exact Or.inl h
      · obtain ⟨rfl, rfl⟩ := List.cons.inj heq
        obtain ⟨⟨b, hb⟩, hbefore⟩ := List.forall_mem_cons.mp hbefore
        exact Or.inr ⟨b, hb, bind_eq_error_iff.mpr
          (Or.inl (ih.mpr ⟨before, a'', after, rfl, hbefore, h⟩))⟩

end MapM

end TripleScript
