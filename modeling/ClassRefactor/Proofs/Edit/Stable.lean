import Mathlib.Data.List.Basic

/-!
# Stable sorting and erasing of duplicates

Sorting is stable, so what is sorted and then picked out is what is picked out and then sorted.
-/

namespace ClassRefactor

section Sorting

variable {α : Type} {le : α → α → Bool}

/-- Two splits of one list at the place where a property of its elements ends are the same. -/
theorem append_inj_of_forall {p : α → Prop} {as bs cs ds : List α} (h : as ++ bs = cs ++ ds)
    (has : ∀ a ∈ as, p a) (hbs : ∀ b ∈ bs, ¬ p b) (hcs : ∀ c ∈ cs, p c) (hds : ∀ d ∈ ds, ¬ p d) :
    as = cs ∧ bs = ds := by
  rcases List.append_eq_append_iff.mp h with ⟨es, rfl, rfl⟩ | ⟨es, rfl, rfl⟩
  · cases es with
    | nil => simp
    | cons e es => exact absurd (hcs e (by simp)) (hbs e (by simp))
  · cases es with
    | nil => simp
    | cons e es => exact absurd (has e (by simp)) (hds e (by simp))

variable (htrans : ∀ a b c, le a b = true → le b c = true → le a c = true)
  (htotal : ∀ a b, (le a b || le b a) = true)
include htrans htotal

/-- Where sorting puts the first element: after all that must come before it and before the rest. -/
theorem exists_mergeSort_cons (a : α) (as : List α) :
    ∃ front back, (a :: as).mergeSort le = front ++ a :: back ∧
      as.mergeSort le = front ++ back ∧ (∀ b ∈ front, ¬ le a b = true) ∧
      ∀ b ∈ back, ¬ ¬ le a b = true := by
  obtain ⟨front, back, hcons, hrest, hfront⟩ := List.mergeSort_cons htrans htotal a as
  refine ⟨front, back, hcons, hrest, fun b hb => by simpa using hfront b hb, fun b hb => ?_⟩
  have hsorted := List.pairwise_mergeSort htrans htotal (a :: as)
  rw [hcons] at hsorted
  exact not_not_intro
    ((List.pairwise_cons.mp (List.pairwise_append.mp hsorted).2.1).1 b hb)

theorem filter_mergeSort (p : α → Bool) (as : List α) :
    (as.mergeSort le).filter p = (as.filter p).mergeSort le := by
  induction as with
  | nil => simp
  | cons a as ih =>
    obtain ⟨front, back, hcons, hrest, hfront, hback⟩ := exists_mergeSort_cons htrans htotal a as
    rw [hrest, List.filter_append] at ih
    rw [hcons, List.filter_append]
    cases hp : p a with
    | false =>
      rw [List.filter_cons_of_neg (by simp [hp]), List.filter_cons_of_neg (by simp [hp]), ih]
    | true =>
      rw [List.filter_cons_of_pos hp, List.filter_cons_of_pos hp]
      obtain ⟨front', back', hcons', hrest', hfront', hback'⟩ :=
        exists_mergeSort_cons htrans htotal a (as.filter p)
      obtain ⟨hf, hb⟩ := append_inj_of_forall (ih.trans hrest')
        (fun b hb => hfront b (List.mem_filter.mp hb).1)
        (fun b hb => hback b (List.mem_filter.mp hb).1) hfront' hback'
      rw [hcons', hf, hb]

theorem mergeSort_mergeSort (as : List α) : (as.mergeSort le).mergeSort le = as.mergeSort le :=
  List.mergeSort_of_pairwise (List.pairwise_mergeSort htrans htotal as)

end Sorting

/-- A sorted list is settled by the elements of each key, in their order. The induction is on the
list; the heads have the same key, as each of them is an element of the other list too. -/
theorem eq_of_filter_key_eq {α κ : Type} [BEq κ] [LawfulBEq κ] (key : α → κ) {le : α → α → Bool}
    (hantisymm : ∀ a b, le a b = true → le b a = true → key a = key b) {as bs : List α}
    (has : as.Pairwise fun a b => le a b = true) (hbs : bs.Pairwise fun a b => le a b = true)
    (h : ∀ k, as.filter (key · == k) = bs.filter (key · == k)) : as = bs := by
  have mem_of_filter : ∀ {as bs : List α}, (∀ k, as.filter (key · == k) = bs.filter (key · == k)) →
      ∀ {a}, a ∈ as → a ∈ bs := by
    intro as bs h a ha
    have hmem : a ∈ as.filter (key · == key a) := List.mem_filter.mpr ⟨ha, beq_self_eq_true _⟩
    rw [h] at hmem
    exact (List.mem_filter.mp hmem).1
  induction as generalizing bs with
  | nil =>
    cases bs with
    | nil => rfl
    | cons b bs => cases mem_of_filter (fun k => (h k).symm) List.mem_cons_self
  | cons a as ih =>
    cases bs with
    | nil => cases mem_of_filter h List.mem_cons_self
    | cons b bs =>
      obtain ⟨ha, hrestA⟩ := List.pairwise_cons.mp has
      obtain ⟨hb, hrestB⟩ := List.pairwise_cons.mp hbs
      have hkey : key a = key b := by
        rcases List.mem_cons.mp (mem_of_filter h List.mem_cons_self) with rfl | hab
        · rfl
        rcases List.mem_cons.mp (mem_of_filter (fun k => (h k).symm) List.mem_cons_self) with
          rfl | hba
        · rfl
        exact hantisymm a b (ha b hba) (hb a hab)
      have hhead := h (key a)
      rw [List.filter_cons_of_pos (by simp), List.filter_cons_of_pos (by simp [hkey])] at hhead
      obtain rfl := (List.cons.inj hhead).1
      have hrest : as = bs := ih hrestA hrestB fun k => by
        have hk := h k
        rw [List.filter_cons, List.filter_cons] at hk
        split at hk
        · exact (List.cons.inj hk).2
        · exact hk
      rw [hrest]

theorem nodup_eraseDups {α : Type} [BEq α] [LawfulBEq α] (as : List α) : as.eraseDups.Nodup := by
  induction hn : as.length using Nat.strongRecOn generalizing as with
  | ind n ih =>
    cases as with
    | nil => simp
    | cons a as =>
      rw [List.eraseDups_cons, List.nodup_cons]
      refine ⟨by simp [List.mem_eraseDups], ih _ ?_ _ rfl⟩
      have := List.length_filter_le (fun b => !b == a) as
      simp only [List.length_cons] at hn
      omega

/-- Names that are sorted without their repeats come in strictly ascending order. -/
theorem pairwise_lt_mergeSort_eraseDups (names : List String) :
    (names.eraseDups.mergeSort fun a b => decide (a ≤ b)).Pairwise (· < ·) := by
  have hle : (names.eraseDups.mergeSort fun a b => decide (a ≤ b)).Pairwise
      fun a b => decide (a ≤ b) = true :=
    List.pairwise_mergeSort (fun a b c hab hbc => by simp at *; exact String.le_trans hab hbc)
      (fun a b => by simpa using String.le_total a b) _
  have hne : (names.eraseDups.mergeSort fun a b => decide (a ≤ b)).Pairwise (· ≠ ·) :=
    List.nodup_iff_pairwise_ne.mp ((List.mergeSort_perm ..).nodup_iff.mpr (nodup_eraseDups _))
  refine (hle.and hne).imp fun {a b} hab => ?_
  simp only [decide_eq_true_eq] at hab
  exact Std.lt_of_le_of_ne hab.1 hab.2

end ClassRefactor
