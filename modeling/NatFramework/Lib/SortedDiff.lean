import Mathlib.Data.List.Basic

/-!
# The difference of two ranked tables

A table is a list of keys with counts, ranked by a strict total order, `ahead`.
`diff` walks two of them with two pointers, from the first key on that is not
ahead of the other table, until one of them is exhausted, and gives for each key
what the count has changed by.

* `mem_diffFrom`, `mem_diff`: the keys are those of either table that lie within both.
* `ranked_diff`, `count_diff`: they are ranked, with the difference of the counts.
-/
namespace NatFramework.Lib.SortedDiff

section

variable {α : Type}

structure Ranking (ahead : α → α → Bool) : Prop where
  irrefl : ∀ a, ¬ahead a a
  trans : ∀ a b c, ahead a b → ahead b c → ahead a c
  connex : ∀ a b, ¬ahead a b → ¬ahead b a → a = b

/-- The table is in the order of its keys. -/
def Ranked (ahead : α → α → Bool) (l : List (α × Int)) : Prop :=
  l.Pairwise fun a b => ahead a.1 b.1

def keys (l : List (α × Int)) : List α := l.map Prod.fst

/-- Some key of the table is not ahead of `p`. -/
def Reaches (ahead : α → α → Bool) (l : List (α × Int)) (p : α) : Prop :=
  ∃ e ∈ l, ¬ahead e.1 p

/-- The key lies between two keys of the table. -/
def Within (ahead : α → α → Bool) (l : List (α × Int)) (p : α) : Prop :=
  (∃ e ∈ l, ¬ahead p e.1) ∧ Reaches ahead l p

variable {ahead : α → α → Bool} {l m : List (α × Int)} {p q : α} {v : Int}

theorem mem_keys : p ∈ keys l ↔ ∃ v, (p, v) ∈ l := by
  simp [keys]

theorem mem_keys_cons : p ∈ keys ((q, v) :: l) ↔ p = q ∨ p ∈ keys l := List.mem_cons

theorem ahead_of_mem (h : Ranked ahead ((q, v) :: m)) (hp : p ∈ keys m) : ahead q p := by
  obtain ⟨w, hw⟩ := mem_keys.mp hp
  exact (List.pairwise_cons.mp h).1 _ hw

theorem reaches_cons : Reaches ahead ((q, v) :: l) p ↔ ¬ahead q p ∨ Reaches ahead l p := by
  simp [Reaches]

namespace Ranking

variable (hr : Ranking ahead)
include hr

theorem not_ahead (h : ahead p q) : ¬ahead q p := fun h' => hr.irrefl p (hr.trans p q p h h')

theorem reaches_of_mem (h : p ∈ keys l) : Reaches ahead l p := by
  obtain ⟨v, hv⟩ := mem_keys.mp h
  exact ⟨(p, v), hv, hr.irrefl p⟩

/-- The keys behind the first one are not equal to it. -/
theorem head_not_mem (h : Ranked ahead ((q, v) :: l)) : q ∉ keys l :=
  fun hq => hr.irrefl q (ahead_of_mem h hq)

end Ranking

/-! ## The keys that are passed over -/

theorem ranked_dropWhile (hl : Ranked ahead l) (f : α × Int → Bool) : Ranked ahead (l.dropWhile f) :=
  hl.sublist (List.dropWhile_sublist f)

theorem mem_keys_dropWhile (hr : Ranking ahead) (hl : Ranked ahead l) :
    p ∈ keys (l.dropWhile fun e => ahead e.1 q) ↔ p ∈ keys l ∧ ¬ahead p q := by
  induction l with
  | nil => simp [keys]
  | cons e l ih =>
    obtain ⟨a, v⟩ := e
    rw [List.dropWhile_cons]
    split
    · rename_i haq
      rw [ih (List.pairwise_cons.mp hl).2, mem_keys_cons]
      constructor
      · exact fun h => ⟨.inr h.1, h.2⟩
      · rintro ⟨rfl | hp, hpq⟩
        · exact absurd haq hpq
        · exact ⟨hp, hpq⟩
    · rename_i haq
      refine ⟨fun hp => ⟨hp, ?_⟩, And.left⟩
      intro hpq
      rcases mem_keys_cons.mp hp with rfl | hp
      · exact haq hpq
      · exact haq (hr.trans a p q (ahead_of_mem hl hp) hpq)

theorem within_cons (hr : Ranking ahead) (hl : Ranked ahead ((q, v) :: l)) :
    Within ahead ((q, v) :: l) p ↔ ¬ahead p q ∧ Reaches ahead ((q, v) :: l) p := by
  refine and_congr_left fun _ => ⟨?_, fun h => ⟨_, List.mem_cons_self, h⟩⟩
  rintro ⟨e, he, hpe⟩ hpq
  rcases List.mem_cons.mp he with rfl | he
  · exact hpe hpq
  · exact hpe (hr.trans p q e.1 hpq (ahead_of_mem hl (mem_keys.mpr ⟨e.2, he⟩)))

/-- What one table reaches is left of it if the key is not ahead of the other. -/
theorem reaches_dropWhile (hr : Ranking ahead) (hl : Ranked ahead l) (hp : ¬ahead p q) :
    Reaches ahead (l.dropWhile fun e => ahead e.1 q) p ↔ Reaches ahead l p := by
  constructor
  · rintro ⟨e, he, hep⟩
    exact ⟨e, (List.dropWhile_sublist _).subset he, hep⟩
  · rintro ⟨e, he, hep⟩
    have heq : ¬ahead e.1 q := by
      intro heq
      by_cases hpe : ahead p e.1
      · exact hp (hr.trans p e.1 q hpe heq)
      · rw [hr.connex p e.1 hpe hep] at hp
        exact hp heq
    obtain ⟨v, hv⟩ := mem_keys.mp ((mem_keys_dropWhile hr hl).mpr ⟨mem_keys.mpr ⟨e.2, he⟩, heq⟩)
    exact ⟨(e.1, v), hv, hep⟩

end

section

variable {α : Type} [DecidableEq α]

/-- The count of a key, 0 where the table does not have it. -/
def count (l : List (α × Int)) (p : α) : Int := (l.lookup p).getD 0

def diffFrom (ahead : α → α → Bool) : List (α × Int) → List (α × Int) → List (α × Int)
  | [], _ => []
  | _ :: _, [] => []
  | (p, v) :: l, (q, w) :: m =>
    if ahead p q then (p, -v) :: diffFrom ahead l ((q, w) :: m)
    else if p = q then (p, w - v) :: diffFrom ahead l m
    else (q, w) :: diffFrom ahead ((p, v) :: l) m
termination_by l m => l.length + m.length

/-- The keys ahead of the other table are passed over. -/
def diff (ahead : α → α → Bool) : List (α × Int) → List (α × Int) → List (α × Int)
  | (p, v) :: l, (q, w) :: m =>
    diffFrom ahead (((p, v) :: l).dropWhile fun e => ahead e.1 q)
      (((q, w) :: m).dropWhile fun e => ahead e.1 p)
  | _, _ => []

variable {ahead : α → α → Bool} {l m : List (α × Int)} {p q : α} {v w : Int}

@[simp] theorem count_cons_self : count ((p, v) :: l) p = v := by
  simp [count]

@[simp] theorem count_cons_of_ne (h : p ≠ q) : count ((q, v) :: l) p = count l p := by
  simp [count, List.lookup_cons, beq_eq_false_iff_ne.mpr h]

theorem count_of_not_mem (h : p ∉ keys l) : count l p = 0 := by
  induction l with
  | nil => rfl
  | cons e l ih =>
    obtain ⟨hne, hl⟩ := not_or.mp (mt mem_keys_cons.mpr h)
    rw [count_cons_of_ne hne, ih hl]

theorem diffFrom_nil_right (ahead : α → α → Bool) (l : List (α × Int)) : diffFrom ahead l [] = [] := by
  cases l with
  | nil => rw [diffFrom]
  | cons e l => rw [diffFrom]

/-- The keys of either table that both of them reach. -/
theorem mem_diffFrom (hr : Ranking ahead) (hl : Ranked ahead l) (hm : Ranked ahead m) :
    p ∈ keys (diffFrom ahead l m) ↔
      (p ∈ keys l ∨ p ∈ keys m) ∧ Reaches ahead l p ∧ Reaches ahead m p := by
  fun_induction diffFrom ahead l m with
  | case1 m => simp [keys, Reaches]
  | case2 e l => simp [keys, Reaches]
  | case3 a v l b w m hab ih =>
    have hbehind : ∀ x, x ∈ keys l ∨ x ∈ keys ((b, w) :: m) → ahead a x := by
      rintro x (hx | hx)
      · exact ahead_of_mem hl hx
      · rcases mem_keys_cons.mp hx with rfl | hx
        · exact hab
        · exact hr.trans a b x hab (ahead_of_mem hm hx)
    rw [mem_keys_cons, ih (List.pairwise_cons.mp hl).2 hm, mem_keys_cons (l := l)]
    constructor
    · rintro (rfl | ⟨hmem, hreach, hreach'⟩)
      · exact ⟨.inl (.inl rfl), reaches_cons.mpr (.inl (hr.irrefl p)),
          reaches_cons.mpr (.inl (hr.not_ahead hab))⟩
      · exact ⟨hmem.imp_left .inr, reaches_cons.mpr (.inr hreach), hreach'⟩
    · rintro ⟨(rfl | hmem) | hmem, hreach, hreach'⟩
      · exact .inl rfl
      · exact .inr ⟨.inl hmem, hr.reaches_of_mem hmem, hreach'⟩
      · exact .inr ⟨.inr hmem, (reaches_cons.mp hreach).resolve_left
          (not_not.mpr (hbehind p (.inr hmem))), hreach'⟩
  | case4 v l a w m hab ih =>
    rw [mem_keys_cons, ih (List.pairwise_cons.mp hl).2 (List.pairwise_cons.mp hm).2, mem_keys_cons,
      mem_keys_cons]
    constructor
    · rintro (rfl | ⟨hmem, hreach, hreach'⟩)
      · exact ⟨.inl (.inl rfl), reaches_cons.mpr (.inl (hr.irrefl p)),
          reaches_cons.mpr (.inl (hr.irrefl p))⟩
      · exact ⟨hmem.imp .inr .inr, reaches_cons.mpr (.inr hreach), reaches_cons.mpr (.inr hreach')⟩
    · rintro ⟨hmem, hreach, hreach'⟩
      by_cases hp : p = a
      · exact .inl hp
      · have hmem' : p ∈ keys l ∨ p ∈ keys m := hmem.imp (Or.resolve_left · hp) (Or.resolve_left · hp)
        have ha : ahead a p := hmem'.elim (ahead_of_mem hl) (ahead_of_mem hm)
        exact .inr ⟨hmem', (reaches_cons.mp hreach).resolve_left (not_not.mpr ha),
          (reaches_cons.mp hreach').resolve_left (not_not.mpr ha)⟩
  | case5 a v l b w m hab hne ih =>
    have hba : ahead b a := by
      by_contra hba
      exact hne (hr.connex a b hab hba)
    have hbehind : ∀ x, x ∈ keys ((a, v) :: l) → ahead b x := by
      intro x hx
      rcases mem_keys_cons.mp hx with rfl | hx
      · exact hba
      · exact hr.trans b a x hba (ahead_of_mem hl hx)
    rw [mem_keys_cons, ih hl (List.pairwise_cons.mp hm).2, mem_keys_cons (l := m)]
    constructor
    · rintro (rfl | ⟨hmem, hreach, hreach'⟩)
      · exact ⟨.inr (.inl rfl), reaches_cons.mpr (.inl (hr.not_ahead hba)),
          reaches_cons.mpr (.inl (hr.irrefl p))⟩
      · exact ⟨hmem.imp_right .inr, hreach, reaches_cons.mpr (.inr hreach')⟩
    · rintro ⟨hmem | rfl | hmem, hreach, hreach'⟩
      · exact .inr ⟨.inl hmem, hreach, (reaches_cons.mp hreach').resolve_left
          (not_not.mpr (hbehind p hmem))⟩
      · exact .inl rfl
      · exact .inr ⟨.inr hmem, hreach, hr.reaches_of_mem hmem⟩

theorem ranked_diffFrom (hr : Ranking ahead) (hl : Ranked ahead l) (hm : Ranked ahead m) :
    Ranked ahead (diffFrom ahead l m) := by
  have hcons : ∀ {a : α} {v : Int} {l' m' : List (α × Int)}, Ranked ahead l' → Ranked ahead m' →
      (∀ x, x ∈ keys l' ∨ x ∈ keys m' → ahead a x) → Ranked ahead (diffFrom ahead l' m') →
      Ranked ahead ((a, v) :: diffFrom ahead l' m') := by
    intro a v l' m' hl' hm' ha hrest
    refine List.pairwise_cons.mpr ⟨fun e he => ?_, hrest⟩
    exact ha e.1 ((mem_diffFrom hr hl' hm').mp (mem_keys.mpr ⟨e.2, he⟩)).1
  fun_induction diffFrom ahead l m with
  | case1 m => exact List.Pairwise.nil
  | case2 e l => exact List.Pairwise.nil
  | case3 a v l b w m hab ih =>
    have hl' := (List.pairwise_cons.mp hl).2
    refine hcons hl' hm ?_ (ih hl' hm)
    rintro x (hx | hx)
    · exact ahead_of_mem hl hx
    · rcases mem_keys_cons.mp hx with rfl | hx
      · exact hab
      · exact hr.trans a b x hab (ahead_of_mem hm hx)
  | case4 v l a w m hab ih =>
    have hl' := (List.pairwise_cons.mp hl).2
    have hm' := (List.pairwise_cons.mp hm).2
    exact hcons hl' hm' (fun x hx => hx.elim (ahead_of_mem hl) (ahead_of_mem hm)) (ih hl' hm')
  | case5 a v l b w m hab hne ih =>
    have hm' := (List.pairwise_cons.mp hm).2
    have hba : ahead b a := by
      by_contra hba
      exact hne (hr.connex a b hab hba)
    refine hcons hl hm' ?_ (ih hl hm')
    rintro x (hx | hx)
    · rcases mem_keys_cons.mp hx with rfl | hx
      · exact hba
      · exact hr.trans b a x hba (ahead_of_mem hl hx)
    · exact ahead_of_mem hm hx

/-- The counts of the two tables are those of the rest for a key that is not their first. -/
theorem count_diffFrom (hr : Ranking ahead) (hl : Ranked ahead l) (hm : Ranked ahead m) {e : α × Int}
    (he : e ∈ diffFrom ahead l m) : e.2 = count m e.1 - count l e.1 := by
  fun_induction diffFrom ahead l m with
  | case1 m => cases he
  | case2 e l => cases he
  | case3 a v l b w m hab ih =>
    have hl' := (List.pairwise_cons.mp hl).2
    have hnot : a ∉ keys ((b, w) :: m) := by
      intro ha
      rcases mem_keys_cons.mp ha with rfl | ha
      · exact hr.irrefl a hab
      · exact hr.not_ahead hab (ahead_of_mem hm ha)
    rcases List.mem_cons.mp he with rfl | he
    · rw [count_of_not_mem hnot, count_cons_self, Int.zero_sub]
    · have hmem := ((mem_diffFrom hr hl' hm).mp (mem_keys.mpr ⟨e.2, he⟩)).1
      have hne : e.1 ≠ a := by
        rintro rfl
        exact hmem.elim (hr.head_not_mem hl) hnot
      rw [count_cons_of_ne (l := l) hne]
      exact ih hl' hm he
  | case4 v l a w m hab ih =>
    have hl' := (List.pairwise_cons.mp hl).2
    have hm' := (List.pairwise_cons.mp hm).2
    rcases List.mem_cons.mp he with rfl | he
    · rw [count_cons_self, count_cons_self]
    · have hmem := ((mem_diffFrom hr hl' hm').mp (mem_keys.mpr ⟨e.2, he⟩)).1
      have hne : e.1 ≠ a := by
        rintro rfl
        exact hmem.elim (hr.head_not_mem hl) (hr.head_not_mem hm)
      rw [count_cons_of_ne hne, count_cons_of_ne hne]
      exact ih hl' hm' he
  | case5 a v l b w m hab hne ih =>
    have hm' := (List.pairwise_cons.mp hm).2
    have hba : ahead b a := by
      by_contra hba
      exact hne (hr.connex a b hab hba)
    have hnot : b ∉ keys ((a, v) :: l) := by
      intro hb
      rcases mem_keys_cons.mp hb with rfl | hb
      · exact hr.irrefl b hba
      · exact hr.not_ahead hba (ahead_of_mem hl hb)
    rcases List.mem_cons.mp he with rfl | he
    · rw [count_of_not_mem hnot, count_cons_self, Int.sub_zero]
    · have hmem := ((mem_diffFrom hr hl hm').mp (mem_keys.mpr ⟨e.2, he⟩)).1
      have hne' : e.1 ≠ b := by
        rintro rfl
        exact hmem.elim hnot (hr.head_not_mem hm)
      rw [count_cons_of_ne (l := m) hne']
      exact ih hl hm' he

/-- The counts of the keys that are left. -/
theorem count_dropWhile (hl : Ranked ahead l) (hp : ¬ahead p q) :
    count (l.dropWhile fun e => ahead e.1 q) p = count l p := by
  induction l with
  | nil => rfl
  | cons e l ih =>
    obtain ⟨a, v⟩ := e
    rw [List.dropWhile_cons]
    split
    · rename_i haq
      have hne : p ≠ a := by
        rintro rfl
        exact hp haq
      rw [ih (List.pairwise_cons.mp hl).2, count_cons_of_ne hne]
    · rfl

/-- A key of either table is in the difference exactly when it is within both. -/
theorem mem_diff (hr : Ranking ahead) (hl : Ranked ahead l) (hm : Ranked ahead m) :
    p ∈ keys (diff ahead l m) ↔
      (p ∈ keys l ∨ p ∈ keys m) ∧ Within ahead l p ∧ Within ahead m p := by
  match l, m with
  | [], _ => simp [diff, keys, Within, Reaches]
  | _ :: _, [] => simp [diff, keys, Within, Reaches]
  | (a, v) :: l, (b, w) :: m =>
    rw [diff, mem_diffFrom hr (ranked_dropWhile hl _) (ranked_dropWhile hm _), mem_keys_dropWhile hr hl,
      mem_keys_dropWhile hr hm, within_cons hr hl, within_cons hr hm]
    have hfirst : p ∈ keys ((a, v) :: l) → ¬ahead p a := by
      intro hp hpa
      rcases mem_keys_cons.mp hp with rfl | hp
      · exact hr.irrefl p hpa
      · exact hr.not_ahead hpa (ahead_of_mem hl hp)
    have hfirst' : p ∈ keys ((b, w) :: m) → ¬ahead p b := by
      intro hp hpb
      rcases mem_keys_cons.mp hp with rfl | hp
      · exact hr.irrefl p hpb
      · exact hr.not_ahead hpb (ahead_of_mem hm hp)
    constructor
    · rintro ⟨hmem, hreach, hreach'⟩
      have ha : ¬ahead p a := hmem.elim (fun h => hfirst h.1) And.right
      have hb : ¬ahead p b := hmem.elim And.right fun h => hfirst' h.1
      exact ⟨hmem.imp And.left And.left, ⟨ha, (reaches_dropWhile hr hl hb).mp hreach⟩, hb,
        (reaches_dropWhile hr hm ha).mp hreach'⟩
    · rintro ⟨hmem, ⟨ha, hreach⟩, hb, hreach'⟩
      exact ⟨hmem.imp (⟨·, hb⟩) (⟨·, ha⟩), (reaches_dropWhile hr hl hb).mpr hreach,
        (reaches_dropWhile hr hm ha).mpr hreach'⟩

theorem ranked_diff (hr : Ranking ahead) (hl : Ranked ahead l) (hm : Ranked ahead m) :
    Ranked ahead (diff ahead l m) := by
  match l, m with
  | [], _ => exact List.Pairwise.nil
  | _ :: _, [] => exact List.Pairwise.nil
  | (a, v) :: l, (b, w) :: m => exact ranked_diffFrom hr (ranked_dropWhile hl _) (ranked_dropWhile hm _)

theorem count_diff (hr : Ranking ahead) (hl : Ranked ahead l) (hm : Ranked ahead m) {e : α × Int}
    (he : e ∈ diff ahead l m) : e.2 = count m e.1 - count l e.1 := by
  have hkey := (mem_diff hr hl hm).mp (mem_keys.mpr ⟨e.2, he⟩)
  match l, m with
  | [], _ => cases he
  | _ :: _, [] => cases he
  | (a, v) :: l, (b, w) :: m =>
    rw [count_diffFrom hr (ranked_dropWhile hl _) (ranked_dropWhile hm _) he,
      count_dropWhile hl ((within_cons hr hm).mp hkey.2.2).1,
      count_dropWhile hm ((within_cons hr hl).mp hkey.2.1).1]

end

end NatFramework.Lib.SortedDiff
