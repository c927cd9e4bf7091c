import Mathlib.Order.Lattice

/-!
# Merging many lists

`mergeAll key qs`: again and again the least of the heads, and of equal ones the
head of the list that stands first.

* `mergeAll_least`: what is taken first, and what is left.
* `mergeAll_sorted`, `mergeAll_filter`: of sorted lists it is sorted, and has every
  list in its order.
* `mergeAll_stable`: and equal keys come in the order of the lists.
* `mergeAll_split`: lists that are above the others come behind them.
* `mergeAll_parts`: a sorted list that was cut into parts is put together again.
-/
namespace NatFramework.Lib

variable {α β κ : Type} [LinearOrder κ] {key : α → κ}

def keyLe (key : α → κ) (a b : α) : Bool := decide (key a ≤ key b)

def mergeAll (key : α → κ) (qs : List (List α)) : List α :=
  qs.foldr (fun q out => q.merge out (keyLe key)) []

@[simp] theorem mergeAll_nil : mergeAll key [] = [] := rfl

@[simp] theorem mergeAll_cons (q : List α) (qs : List (List α)) :
    mergeAll key (q :: qs) = q.merge (mergeAll key qs) (keyLe key) := rfl

theorem keyLe_iff {a b : α} : keyLe key a b = true ↔ key a ≤ key b := decide_eq_true_iff

/-- An empty list plays no part. -/
theorem mergeAll_skip (l₁ l₂ : List (List α)) :
    mergeAll key (l₁ ++ [] :: l₂) = mergeAll key (l₁ ++ l₂) := by
  induction l₁ with
  | nil => simp
  | cons q l₁ ih => simp only [List.cons_append, mergeAll_cons, ih]

theorem mem_mergeAll {x : α} {qs : List (List α)} : x ∈ mergeAll key qs ↔ ∃ q ∈ qs, x ∈ q := by
  induction qs with
  | nil => simp
  | cons q qs ih => simp [List.mem_merge, ih]

theorem mergeAll_sorted {qs : List (List α)} (h : ∀ q ∈ qs, q.Pairwise fun a b => key a ≤ key b) :
    (mergeAll key qs).Pairwise fun a b => key a ≤ key b := by
  induction qs with
  | nil => exact List.Pairwise.nil
  | cons q qs ih =>
    have hq := h q List.mem_cons_self
    have hqs := ih fun q' hq' => h q' (List.mem_cons_of_mem q hq')
    have htrans : ∀ a b c : α, keyLe key a b → keyLe key b c → keyLe key a c := by
      intro a b c hab hbc
      rw [keyLe_iff] at *
      exact le_trans hab hbc
    have htotal : ∀ a b : α, keyLe key a b || keyLe key b a := by
      intro a b
      rw [Bool.or_eq_true, keyLe_iff, keyLe_iff]
      exact le_total (key a) (key b)
    have hmerge := List.pairwise_merge htrans htotal q (mergeAll key qs)
      (hq.imp keyLe_iff.mpr) (hqs.imp keyLe_iff.mpr)
    exact hmerge.imp keyLe_iff.mp

theorem head_merge {le : α → α → Bool} {l r : List α} {y : α} (h : y ∈ (l.merge r le).head?) :
    y ∈ l.head? ∨ y ∈ r.head? := by
  cases l with
  | nil => exact .inr (by simpa using h)
  | cons a l =>
    cases r with
    | nil => exact .inl (by simpa using h)
    | cons b r =>
      rw [List.cons_merge_cons] at h
      split at h
      · exact .inl h
      · exact .inr h

theorem head_mergeAll {qs : List (List α)} {y : α} (h : y ∈ (mergeAll key qs).head?) :
    ∃ q ∈ qs, y ∈ q.head? := by
  induction qs with
  | nil => exact nomatch h
  | cons q qs ih =>
    rcases head_merge h with hq | hqs
    · exact ⟨q, List.mem_cons_self, hq⟩
    · obtain ⟨q', hq', hy⟩ := ih hqs
      exact ⟨q', List.mem_cons_of_mem q hq', hy⟩

/-- The first of the least heads is taken. -/
theorem mergeAll_least {l₁ l₂ : List (List α)} {x : α} {q : List α}
    (h₁ : ∀ q' ∈ l₁, ∀ y ∈ q'.head?, key x < key y) (h₂ : ∀ q' ∈ l₂, ∀ y ∈ q'.head?, key x ≤ key y) :
    mergeAll key (l₁ ++ (x :: q) :: l₂) = x :: mergeAll key (l₁ ++ q :: l₂) := by
  induction l₁ with
  | nil =>
    simp only [List.nil_append, mergeAll_cons]
    cases hrest : mergeAll key l₂ with
    | nil => simp
    | cons y ys =>
      have hhead : y ∈ (mergeAll key l₂).head? := by rw [hrest]; rfl
      obtain ⟨q', hq', hy⟩ := head_mergeAll hhead
      exact List.cons_merge_cons_pos _ _ _ (keyLe_iff.mpr (h₂ q' hq' y hy))
  | cons q' l₁ ih =>
    simp only [List.cons_append, mergeAll_cons]
    rw [ih fun p hp => h₁ p (List.mem_cons_of_mem q' hp)]
    cases q' with
    | nil => simp
    | cons y q' =>
      have hlt := h₁ (y :: q') List.mem_cons_self y rfl
      exact List.cons_merge_cons_neg _ _ _ fun hle => absurd (keyLe_iff.mp hle) (not_le.mpr hlt)

/-! ## Parts of a merge -/

/-- A merge keeps the order of its first list. -/
theorem filter_merge_left {le : α → α → Bool} {p : α → Bool} {l r : List α}
    (h : ∀ x ∈ r, p x = false) : (l.merge r le).filter p = l.filter p := by
  induction l generalizing r with
  | nil => simpa using h
  | cons a l ihl =>
    induction r with
    | nil => simp
    | cons b r ihr =>
      rw [List.cons_merge_cons]
      split
      · rw [List.filter_cons, List.filter_cons, ihl h]
      · rw [List.filter_cons_of_neg (by simp [h b List.mem_cons_self])]
        exact ihr fun x hx => h x (List.mem_cons_of_mem b hx)

/-- And of its second. -/
theorem filter_merge_right {le : α → α → Bool} {p : α → Bool} {l r : List α}
    (h : ∀ x ∈ l, p x = false) : (l.merge r le).filter p = r.filter p := by
  induction l generalizing r with
  | nil => simp
  | cons a l ihl =>
    have ha : ¬p a = true := by simp [h a List.mem_cons_self]
    induction r with
    | nil =>
      rw [List.merge_right]
      exact List.filter_eq_nil_iff.mpr fun x hx => by simp [h x hx]
    | cons b r ihr =>
      rw [List.cons_merge_cons]
      split
      · rw [List.filter_cons_of_neg ha]
        exact ihl fun x hx => h x (List.mem_cons_of_mem a hx)
      · rw [List.filter_cons, List.filter_cons, ihr]

/-- What only one of the lists has comes in the order it has it. -/
theorem mergeAll_filter {p : α → Bool} {l₁ l₂ : List (List α)} {q : List α}
    (h₁ : ∀ q' ∈ l₁, ∀ x ∈ q', p x = false) (h₂ : ∀ q' ∈ l₂, ∀ x ∈ q', p x = false) :
    (mergeAll key (l₁ ++ q :: l₂)).filter p = q.filter p := by
  induction l₁ with
  | nil =>
    refine filter_merge_left fun x hx => ?_
    obtain ⟨q', hq', hx⟩ := mem_mergeAll.mp hx
    exact h₂ q' hq' x hx
  | cons q' l₁ ih =>
    refine (filter_merge_right (h₁ q' List.mem_cons_self)).trans ?_
    exact ih fun p' hp' => h₁ p' (List.mem_cons_of_mem q' hp')

theorem merge_append_left {q a b : List α} (h : ∀ x ∈ q, ∀ y ∈ b, key x ≤ key y) :
    q.merge (a ++ b) (keyLe key) = q.merge a (keyLe key) ++ b := by
  induction q generalizing a with
  | nil => simp
  | cons x q ihq =>
    have htail : ∀ z ∈ q, ∀ y ∈ b, key z ≤ key y := fun z hz => h z (List.mem_cons_of_mem x hz)
    induction a with
    | nil =>
      rw [List.nil_append, List.merge_right]
      exact List.merge_of_le fun z y hz hy => keyLe_iff.mpr (h z hz y hy)
    | cons y a iha =>
      rw [List.cons_append, List.cons_merge_cons, List.cons_merge_cons]
      split
      · rw [← List.cons_append, ihq htail, List.cons_append]
      · rw [iha, List.cons_append]

theorem merge_append_right {q a b : List α} (h : ∀ x ∈ a, ∀ y ∈ q, key x < key y) :
    q.merge (a ++ b) (keyLe key) = a ++ q.merge b (keyLe key) := by
  induction a with
  | nil => simp
  | cons x a ih =>
    have hrest := ih fun z hz => h z (List.mem_cons_of_mem x hz)
    cases q with
    | nil => simp
    | cons y q =>
      have hlt := h x List.mem_cons_self y List.mem_cons_self
      rw [List.cons_append, List.cons_merge_cons_neg _ _ _
        fun hle => absurd (keyLe_iff.mp hle) (not_le.mpr hlt), hrest, List.cons_append]

/-- The lists of what `p` marks are above the others and come behind them. -/
theorem mergeAll_split {f : β → List α} {p : β → Bool} {ws : List β}
    (h : ∀ w ∈ ws, ∀ w' ∈ ws, p w = false → p w' = true →
      ∀ x ∈ f w, ∀ y ∈ f w', key x < key y) :
    mergeAll key (ws.map f) =
      mergeAll key ((ws.filter fun w => !p w).map f) ++ mergeAll key ((ws.filter p).map f) := by
  induction ws with
  | nil => rfl
  | cons w ws ih =>
    have htail := ih fun v hv v' hv' =>
      h v (List.mem_cons_of_mem w hv) v' (List.mem_cons_of_mem w hv')
    rw [List.map_cons, mergeAll_cons, htail]
    cases hw : p w with
    | false =>
      rw [List.filter_cons_of_pos (by simp [hw]), List.filter_cons_of_neg (by simp [hw])]
      refine merge_append_left fun x hx y hy => le_of_lt ?_
      obtain ⟨q, hq, hy⟩ := mem_mergeAll.mp hy
      obtain ⟨w', hw', rfl⟩ := List.mem_map.mp hq
      obtain ⟨hmem, hlate⟩ := List.mem_filter.mp hw'
      exact h w List.mem_cons_self w' (List.mem_cons_of_mem w hmem) hw hlate x hx y hy
    | true =>
      rw [List.filter_cons_of_neg (by simp [hw]), List.filter_cons_of_pos hw]
      refine merge_append_right fun x hx y hy => ?_
      obtain ⟨q, hq, hx⟩ := mem_mergeAll.mp hx
      obtain ⟨w', hw', rfl⟩ := List.mem_map.mp hq
      obtain ⟨hmem, hearly⟩ := List.mem_filter.mp hw'
      exact h w' (List.mem_cons_of_mem w hmem) w List.mem_cons_self (by simpa using hearly) hw x hx y
        hy

/-- Elements of one part may have equal keys; those of two parts have not. -/
theorem mergeAll_parts {ι : Type} [DecidableEq ι] {names : List ι} (hnames : names.Nodup) {ts : List (ι × α)}
    (hin : ∀ t ∈ ts, t.1 ∈ names)
    (h : ts.Pairwise fun a b => key a.2 ≤ key b.2 ∧ (a.1 ≠ b.1 → key a.2 < key b.2)) :
    mergeAll key (names.map fun n => (ts.filter fun t => t.1 = n).map Prod.snd) = ts.map Prod.snd := by
  induction ts with
  | nil =>
    induction names with
    | nil => rfl
    | cons n names ih =>
      rw [List.map_cons, mergeAll_cons, ih (List.nodup_cons.mp hnames).2 fun t ht => nomatch ht]
      exact List.merge_right []
  | cons t ts ih =>
    obtain ⟨hhead, htail⟩ := List.pairwise_cons.mp h
    obtain ⟨l₁, l₂, rfl⟩ := List.append_of_mem (hin t List.mem_cons_self)
    have hrest := ih (fun t' ht' => hin t' (List.mem_cons_of_mem t ht')) htail
    have hself : ((t :: ts).filter fun x => x.1 = t.1).map Prod.snd =
        t.2 :: (ts.filter fun x => x.1 = t.1).map Prod.snd := by
      rw [List.filter_cons_of_pos (by simp), List.map_cons]
    obtain ⟨-, hnd, hapart⟩ := List.nodup_append.mp hnames
    have hother : ∀ n ∈ l₁ ++ l₂, n ≠ t.1 := by
      rintro n hn rfl
      rcases List.mem_append.mp hn with hn | hn
      · exact hapart t.1 hn t.1 List.mem_cons_self rfl
      · exact (List.nodup_cons.mp hnd).1 hn
    have hskip : ∀ n ∈ l₁ ++ l₂, ((t :: ts).filter fun x => x.1 = n).map Prod.snd =
        (ts.filter fun x => x.1 = n).map Prod.snd := by
      intro n hn
      rw [List.filter_cons_of_neg (by simpa using (hother n hn).symm)]
    have hbehind : ∀ n ∈ l₁ ++ l₂, ∀ y ∈ ((ts.filter fun x => x.1 = n).map Prod.snd).head?, key t.2 < key y := by
      intro n hn y hy
      obtain ⟨x, hx, rfl⟩ := List.mem_map.mp (List.mem_of_mem_head? hy)
      obtain ⟨hx, htag⟩ := List.mem_filter.mp hx
      refine (hhead x hx).2 fun heq => hother n hn ?_
      rw [← of_decide_eq_true htag, heq]
    have hmap : ∀ l : List ι, (∀ n ∈ l, n ∈ l₁ ++ l₂) →
        (l.map fun n => ((t :: ts).filter fun x => x.1 = n).map Prod.snd) =
          l.map fun n => (ts.filter fun x => x.1 = n).map Prod.snd :=
      fun l hl => List.map_congr_left fun n hn => hskip n (hl n hn)
    rw [List.map_append, List.map_cons, hmap l₁ fun n hn => List.mem_append_left l₂ hn,
      hmap l₂ fun n hn => List.mem_append_right l₁ hn, hself, mergeAll_least, List.map_cons, ← hrest,
      List.map_append, List.map_cons]
    · intro q hq y hy
      obtain ⟨n, hn, rfl⟩ := List.mem_map.mp hq
      exact hbehind n (List.mem_append_left l₂ hn) y hy
    · intro q hq y hy
      obtain ⟨n, hn, rfl⟩ := List.mem_map.mp hq
      exact le_of_lt (hbehind n (List.mem_append_right l₁ hn) y hy)

/-- Names that the keys do not read. -/
theorem map_mergeAll (f : β → α) (qs : List (List β)) :
    (mergeAll (key ∘ f) qs).map f = mergeAll key (qs.map (List.map f)) := by
  induction qs with
  | nil => rfl
  | cons q qs ih =>
    rw [mergeAll_cons, List.map_merge (r := keyLe (key ∘ f)) (s := keyLe key) fun _ _ _ _ => rfl, ih]
    rfl

/-- Every list as a whole and in its order, and nothing else. -/
def Interleaves (qs : List (List α)) (out : List α) : Prop :=
  ∃ tagged : List (Nat × α), tagged.map Prod.snd = out ∧ (∀ x ∈ tagged, x.1 < qs.length) ∧
    ∀ (i : Nat) (q : List α), qs[i]? = some q → (tagged.filter fun x => x.1 = i).map Prod.snd = q

/-- The elements with the number of their list, from `n` on. -/
def tagAll (n : Nat) (qs : List (List α)) : List (List (Nat × α)) :=
  (qs.zipIdx n).map fun p => p.1.map (p.2, ·)

@[simp] theorem tagAll_nil (n : Nat) : tagAll n ([] : List (List α)) = [] := rfl

@[simp] theorem tagAll_cons (n : Nat) (q : List α) (qs : List (List α)) :
    tagAll n (q :: qs) = q.map (n, ·) :: tagAll (n + 1) qs := by
  simp [tagAll, List.zipIdx_cons]

theorem tagAll_append (n : Nat) (l₁ l₂ : List (List α)) :
    tagAll n (l₁ ++ l₂) = tagAll n l₁ ++ tagAll (n + l₁.length) l₂ := by
  simp [tagAll, List.zipIdx_append]

theorem mem_tagAll {n : Nat} {qs : List (List α)} {q : List (Nat × α)} {x : Nat × α}
    (hq : q ∈ tagAll n qs) (hx : x ∈ q) : n ≤ x.1 ∧ x.1 < n + qs.length := by
  obtain ⟨p, hp, rfl⟩ := List.mem_map.mp hq
  obtain ⟨y, -, rfl⟩ := List.mem_map.mp hx
  have hpos := List.mem_zipIdx hp
  exact ⟨hpos.1, hpos.2.1⟩

theorem head_tagAll {n : Nat} {qs : List (List α)} {q : List (Nat × α)} {x : Nat × α}
    (hq : q ∈ tagAll n qs) (hx : x ∈ q.head?) : ∃ q' ∈ qs, x.2 ∈ q'.head? := by
  obtain ⟨p, hp, rfl⟩ := List.mem_map.mp hq
  rw [List.head?_map] at hx
  obtain ⟨y, hy, rfl⟩ := Option.map_eq_some_iff.mp hx
  exact ⟨p.1, List.fst_mem_of_mem_zipIdx hp, hy⟩

theorem map_snd_tagAll (n : Nat) (qs : List (List α)) : (tagAll n qs).map (List.map Prod.snd) = qs := by
  induction qs generalizing n with
  | nil => rfl
  | cons q qs ih => simp [ih, Function.comp_def]

theorem filter_mergeAll_tagAll {qs : List (List α)} {i : Nat} {q : List α} (hi : qs[i]? = some q) :
    ((mergeAll (key ∘ Prod.snd) (tagAll 0 qs)).filter fun x => x.1 = i).map Prod.snd = q := by
  obtain ⟨a, b, rfl, rfl⟩ : ∃ a b, qs = a ++ q :: b ∧ a.length = i := by
    obtain ⟨hlt, hget⟩ := List.getElem?_eq_some_iff.mp hi
    refine ⟨qs.take i, qs.drop (i + 1), ?_, List.length_take_of_le (Nat.le_of_lt hlt)⟩
    rw [← hget, ← List.drop_eq_getElem_cons hlt, List.take_append_drop]
  rw [tagAll_append, tagAll_cons, Nat.zero_add, mergeAll_filter]
  · rw [List.filter_eq_self.mpr, List.map_map]
    · exact List.map_id q
    · intro x hx
      obtain ⟨y, -, rfl⟩ := List.mem_map.mp hx
      exact decide_eq_true rfl
  · intro q' hq' x hx
    have hpos := (mem_tagAll hq' hx).2
    exact decide_eq_false (by omega)
  · intro q' hq' x hx
    have hpos := (mem_tagAll hq' hx).1
    exact decide_eq_false (by omega)

theorem mergeAll_interleaves (key : α → κ) (qs : List (List α)) :
    Interleaves qs (mergeAll key qs) := by
  refine ⟨mergeAll (key ∘ Prod.snd) (tagAll 0 qs), ?_, ?_, fun i q hi => filter_mergeAll_tagAll hi⟩
  · rw [map_mergeAll, map_snd_tagAll]
  · intro x hx
    obtain ⟨q, hq, hx⟩ := mem_mergeAll.mp hx
    have := (mem_tagAll hq hx).2
    omega

/-! ## Equal keys -/

theorem merge_congr {le le' : α → α → Bool} {l r : List α} (h : ∀ x ∈ l, ∀ y ∈ r, le x y = le' x y) :
    l.merge r le = l.merge r le' := by
  induction l generalizing r with
  | nil => simp
  | cons a l ihl =>
    induction r with
    | nil => simp
    | cons b r ihr =>
      have hab := h a List.mem_cons_self b List.mem_cons_self
      have hl := ihl fun x hx => h x (List.mem_cons_of_mem a hx)
      have hr := ihr fun x hx y hy => h x hx y (List.mem_cons_of_mem b hy)
      rw [List.cons_merge_cons, List.cons_merge_cons, hab, hl, hr]

/-- Before, or with an equal key in a list that does not stand behind. -/
def Stable (key : α → κ) (a b : Nat × α) : Prop := key a.2 < key b.2 ∨ key a.2 = key b.2 ∧ a.1 ≤ b.1

theorem stable_iff {a b : Nat × α} :
    Stable key a b ↔ key a.2 ≤ key b.2 ∧ (key b.2 ≤ key a.2 → a.1 ≤ b.1) := by
  unfold Stable
  constructor
  · rintro (hlt | ⟨heq, hle⟩)
    · exact ⟨le_of_lt hlt, fun hge => absurd hge (not_le.mpr hlt)⟩
    · exact ⟨le_of_eq heq, fun _ => hle⟩
  · rintro ⟨hle, himp⟩
    obtain hlt | heq := lt_or_eq_of_le hle
    · exact Or.inl hlt
    · exact Or.inr ⟨heq, himp (ge_of_eq heq)⟩

/-- Of sorted lists those of equal keys come in the order of the lists. -/
theorem mergeAll_stable {n : Nat} {qs : List (List α)}
    (h : ∀ q ∈ qs, q.Pairwise fun a b => key a ≤ key b) :
    (mergeAll (key ∘ Prod.snd) (tagAll n qs)).Pairwise (Stable key) := by
  classical
  induction qs generalizing n with
  | nil => exact List.Pairwise.nil
  | cons q qs ih =>
    have hrest := ih (n := n + 1) fun q' hq' => h q' (List.mem_cons_of_mem q hq')
    have hq : (q.map (n, ·)).Pairwise (Stable key) := by
      refine List.pairwise_map.mpr ((h q List.mem_cons_self).imp fun hle => ?_)
      exact stable_iff.mpr ⟨hle, fun _ => Nat.le_refl n⟩
    -- against the later lists the number of the list never decides
    have hsame : (q.map (n, ·)).merge (mergeAll (key ∘ Prod.snd) (tagAll (n + 1) qs)) (keyLe (key ∘ Prod.snd)) =
        (q.map (n, ·)).merge (mergeAll (key ∘ Prod.snd) (tagAll (n + 1) qs))
          (fun a b => decide (Stable key a b)) := by
      refine merge_congr fun x hx y hy => ?_
      obtain ⟨x', -, rfl⟩ := List.mem_map.mp hx
      obtain ⟨q', hq', hy⟩ := mem_mergeAll.mp hy
      have hlt := (mem_tagAll hq' hy).1
      rw [keyLe, decide_eq_decide, stable_iff]
      exact ⟨fun hle => ⟨hle, fun _ => by omega⟩, And.left⟩
    rw [tagAll_cons, mergeAll_cons, hsame]
    refine (List.pairwise_merge ?_ ?_ _ _ (hq.imp decide_eq_true) (hrest.imp decide_eq_true)).imp
      of_decide_eq_true
    · intro a b c hab hbc
      simp only [decide_eq_true_eq, stable_iff] at *
      refine ⟨le_trans hab.1 hbc.1, fun hca => ?_⟩
      have h1 := hab.2 (le_trans hbc.1 hca)
      have h2 := hbc.2 (le_trans hca hab.1)
      exact Nat.le_trans h1 h2
    · intro a b
      simp only [Bool.or_eq_true, decide_eq_true_eq, stable_iff]
      obtain hlt | heq | hlt := lt_trichotomy (key a.2) (key b.2)
      · exact Or.inl ⟨le_of_lt hlt, fun hge => absurd hge (not_le.mpr hlt)⟩
      · obtain hle | hle := Nat.le_total a.1 b.1
        · exact Or.inl ⟨le_of_eq heq, fun _ => hle⟩
        · exact Or.inr ⟨ge_of_eq heq, fun _ => hle⟩
      · exact Or.inr ⟨le_of_lt hlt, fun hge => absurd hge (not_le.mpr hlt)⟩

end NatFramework.Lib
