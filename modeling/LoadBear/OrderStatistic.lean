import Mathlib.Data.List.DropRight
import Mathlib.Data.List.Sort
import Mathlib.Tactic

/-!
# Order statistics and rolling windows

A property of a value that all larger ones share holds at a place of the sorted list
exactly when enough of the values have it. A window that drops its oldest entry when
full holds the tail of what was pushed.
-/
namespace LoadBear.OrderStatistic

section Ordered
variable {α : Type*} [LinearOrder α] {k : ℕ} {p : α → Prop} [DecidablePred p]

lemma getElem_iff_of_pairwise {s : List α} (hs : s.Pairwise (· ≤ ·)) (hp : Monotone p)
    (hk : k < s.length) : p s[k] ↔ s.length - k ≤ s.countP p := by
  constructor
  · intro hv
    have hall : (s.drop k).countP p = (s.drop k).length := by
      rw [List.countP_eq_length]
      intro a ha
      obtain ⟨i, hi, rfl⟩ := List.getElem_of_mem ha
      rw [List.getElem_drop]
      simp only [List.length_drop] at hi
      have hle := hs.rel_get_of_le (a := ⟨k, hk⟩) (b := ⟨k + i, by omega⟩) (by simp)
      exact decide_eq_true (hp hle hv)
    rw [← List.length_drop, ← hall]
    exact (List.drop_sublist k s).countP_le
  · intro hcount
    by_contra hv
    have hnone : (s.take (k + 1)).countP p = 0 := by
      rw [List.countP_eq_zero]
      intro a ha
      obtain ⟨i, hi, rfl⟩ := List.getElem_of_mem ha
      rw [List.getElem_take, decide_eq_true_iff]
      simp only [List.length_take] at hi
      have hle := hs.rel_get_of_le (a := ⟨i, by omega⟩) (b := ⟨k, hk⟩) (by simp; omega)
      exact fun ha => hv (hp hle ha)
    have hsplit : s.countP p = (s.take (k + 1)).countP p + (s.drop (k + 1)).countP p := by
      rw [← List.countP_append, List.take_append_drop]
    have hle := List.countP_le_length (p := p) (l := s.drop (k + 1))
    rw [List.length_drop] at hle
    omega

/-- The values of a list in order. -/
def ordered (l : List α) : List α := l.insertionSort (· ≤ ·)

@[simp] theorem length_ordered (l : List α) : (ordered l).length = l.length :=
  List.length_insertionSort _ l

lemma ordered_perm (l : List α) : (ordered l).Perm l := List.perm_insertionSort _ l

lemma pairwise_ordered (l : List α) : (ordered l).Pairwise (· ≤ ·) :=
  List.pairwise_insertionSort _ l

/-- All but `k` of the values have what the one at place `k` has. -/
theorem getElem_ordered_iff (l : List α) (hp : Monotone p) (hk : k < (ordered l).length) :
    p (ordered l)[k] ↔ l.length - k ≤ l.countP p := by
  rw [getElem_iff_of_pairwise (pairwise_ordered l) hp hk, length_ordered,
    (ordered_perm l).countP_eq]

/-- A place that enough values between two bounds surround is between them too. -/
theorem between_getElem_ordered {β : Type*} [LinearOrder β] {f : α → β} (hf : Monotone f)
    {l : List α} {lo hi : β} (hk : k < (ordered l).length)
    (hlow : l.length - k ≤ l.countP fun v => lo ≤ f v ∧ f v ≤ hi)
    (hhigh : k < l.countP fun v => lo ≤ f v ∧ f v ≤ hi) :
    lo ≤ f (ordered l)[k] ∧ f (ordered l)[k] ≤ hi := by
  constructor
  · have hmono : Monotone fun v : α => lo ≤ f v := fun _ _ huv hu => hu.trans (hf huv)
    refine (getElem_ordered_iff l hmono hk).mpr (hlow.trans (List.countP_mono_left ?_))
    intro v _ hv
    exact decide_eq_true (of_decide_eq_true hv).1
  · by_contra hlt
    have hmono : Monotone fun v : α => hi < f v := fun _ _ huv hu => lt_of_lt_of_le hu (hf huv)
    have habove := (getElem_ordered_iff l hmono hk).mp (not_le.mp hlt)
    have hnot : l.countP (fun v => lo ≤ f v ∧ f v ≤ hi) ≤ l.countP fun v => ¬decide (hi < f v) := by
      apply List.countP_mono_left
      intro v _ hv
      simpa using (of_decide_eq_true hv).2
    have hsplit := List.length_eq_countP_add_countP (fun v => decide (hi < f v)) (l := l)
    have hlength : k < l.length := by rwa [length_ordered] at hk
    omega

end Ordered

/-- Two entries with a property stand in order. -/
lemma exists_pair_of_two_le_countP {α : Type*} {p : α → Prop} [DecidablePred p] {l : List α}
    (h : 2 ≤ l.countP p) : ∃ a b, [a, b].Sublist l ∧ p a ∧ p b := by
  rw [List.countP_eq_length_filter] at h
  obtain ⟨a, b, rest, hfilter⟩ : ∃ a b rest, l.filter p = a :: b :: rest := by
    rcases hl : l.filter p with _ | ⟨a, _ | ⟨b, rest⟩⟩
    · simp [hl] at h
    · simp [hl] at h
    · exact ⟨a, b, rest, hl⟩
  have hmem : ∀ c ∈ [a, b], p c := by
    intro c hc
    have hc' : c ∈ l.filter p := by
      rw [hfilter]
      exact List.mem_append_left rest hc
    exact of_decide_eq_true (List.mem_filter.mp hc').2
  have hpair : [a, b].Sublist (l.filter p) := by
    rw [hfilter]
    exact List.sublist_append_left [a, b] rest
  exact ⟨a, b, hpair.trans List.filter_sublist, hmem a (by simp), hmem b (by simp)⟩

section Rolling
variable {α : Type*} (n : ℕ) (xs ys : List α) (a : α)

/-- Push into a window of `n`, dropping the oldest entry when it is full. -/
def push (window : List α) (a : α) : List α :=
  (if window.length = n then window.tail else window) ++ [a]

lemma length_push_le (hn : 0 < n) (h : xs.length ≤ n) : (push n xs a).length ≤ n := by
  unfold push
  split_ifs <;> simp <;> omega

lemma push_rtake (hn : 0 < n) : push n (xs.rtake n) a = (xs ++ [a]).rtake n := by
  obtain ⟨m, rfl⟩ := Nat.exists_eq_add_of_lt hn
  rw [Nat.zero_add, List.rtake_concat_succ, push]
  congr 1
  split_ifs with hfull
  · rw [List.rtake, List.length_drop] at hfull
    rw [List.rtake, List.rtake, List.tail_drop]
    congr 1
    omega
  · rw [List.rtake, List.length_drop] at hfull
    rw [List.rtake, List.rtake]
    congr 1
    omega

lemma rtake_eq_self {n : ℕ} {xs : List α} (h : xs.length ≤ n) : xs.rtake n = xs := by
  rw [List.rtake, Nat.sub_eq_zero_of_le h, List.drop_zero]

lemma rtake_rtake {m n : ℕ} (h : m ≤ n) : (xs.rtake n).rtake m = xs.rtake m := by
  rw [List.rtake, List.rtake, List.rtake, List.drop_drop, List.length_drop]
  congr 1
  omega

lemma rtake_append {n : ℕ} (h : n ≤ ys.length) : (xs ++ ys).rtake n = ys.rtake n := by
  rw [List.rtake, List.rtake, List.length_append, List.drop_append,
    List.drop_eq_nil_of_le (by omega), List.nil_append]
  congr 1
  omega

/-- Pushing values one by one leaves the last of them. -/
theorem foldl_push (hn : 0 < n) : ys.foldl (push n) [] = ys.rtake n := by
  induction ys using List.reverseRecOn with
  | nil => simp
  | append_singleton ys a ih => rw [List.foldl_concat, ih, push_rtake n ys a hn]

end Rolling

/-- A window with room for some entries, one at least. -/
structure Window (α : Type*) where
  capacity : ℕ
  samples : List α
  capacity_pos : 0 < capacity
  fits : samples.length ≤ capacity

lemma max_one_pos (capacity : ℕ) : 0 < max capacity 1 := by omega

lemma length_nil_le {α : Type*} (capacity : ℕ) : ([] : List α).length ≤ capacity :=
  Nat.zero_le capacity

namespace Window
variable {α : Type*}

def new (capacity : ℕ) : Window α where
  capacity := max capacity 1
  samples := []
  capacity_pos := max_one_pos capacity
  fits := length_nil_le (max capacity 1)

def push (w : Window α) (sample : α) : Window α where
  capacity := w.capacity
  samples := OrderStatistic.push w.capacity w.samples sample
  capacity_pos := w.capacity_pos
  fits := length_push_le w.capacity w.samples sample w.capacity_pos w.fits

@[simp] theorem push_capacity (w : Window α) (a : α) : (w.push a).capacity = w.capacity := rfl

@[simp] theorem push_samples (w : Window α) (a : α) :
    (w.push a).samples = OrderStatistic.push w.capacity w.samples a := rfl

lemma foldl_push_capacity (ys : List α) (w : Window α) :
    (ys.foldl push w).capacity = w.capacity := by
  induction ys using List.reverseRecOn with
  | nil => rfl
  | append_singleton ys a ih => rw [List.foldl_concat, push_capacity, ih]

/-- The window holds the last entries pushed, as many as it has room for. -/
theorem foldl_push_samples (ys : List α) (capacity : ℕ) :
    (ys.foldl push (new capacity)).samples = ys.rtake (max capacity 1) := by
  rw [← OrderStatistic.foldl_push _ ys (by omega)]
  induction ys using List.reverseRecOn with
  | nil => rfl
  | append_singleton ys a ih =>
    rw [List.foldl_concat, List.foldl_concat, push_samples, ih, foldl_push_capacity]
    rfl

end Window
end LoadBear.OrderStatistic
