import NatFramework.Lib.Bytes

/-!
# Reading a ring piece by piece

A reader of a ring takes what lies in one piece from the place of its counter
on, or less, and moves the counter, which is reduced modulo `W`. `Visits` are
the places it meets, over every way of cutting what is unread.

* `visits_places`: where the places are told by the counter, every way of
  reading meets the same ones, in the order of the ring.
* `exists_visits_ne`: else two ways of reading differ.
* `places_eq_iff`: when rings of two sizes have the same places.
-/
namespace NatFramework.Lib

/-- `n` places from counter `h` on, read up to the end of the ring at most each time. -/
inductive Visits (W S : Nat) : Nat → Nat → List Nat → Prop
  | done {h : Nat} : Visits W S h 0 []
  | read {h n : Nat} {as : List Nat} (m : Nat) (pos : 0 < m) (le : m ≤ n) (fits : h % S + m ≤ S)
      (rest : Visits W S ((h + m) % W) (n - m) as) : Visits W S h n (piece (h % S) m ++ as)

/-- The counter is not reduced on the way to the last byte, or its reduction
does not move it in the ring. -/
def Straight (W S h n : Nat) : Prop := S ∣ W ∨ h + n ≤ W

instance (W S h n : Nat) : Decidable (Straight W S h n) := inferInstanceAs (Decidable (_ ∨ _))

variable {W S h n : Nat} {as : List Nat}

theorem Straight.mono {m : Nat} (hs : Straight W S h n) (hle : m ≤ n) : Straight W S h m :=
  hs.imp_right fun hsum => Nat.le_trans (Nat.add_le_add_left hle h) hsum

/-- The places past a piece, from the counter as it is reduced. -/
theorem places_reduced {m : Nat} (hs : Straight W S h n) (hm : m ≤ n) :
    places S ((h + m) % W) (n - m) = places S (h + m) (n - m) := by
  rcases hs with hdvd | hle
  · rw [← places_mod S ((h + m) % W), Nat.mod_mod_of_dvd _ hdvd, places_mod]
  · rcases Nat.eq_or_lt_of_le hm with rfl | hlt
    · rw [Nat.sub_self]
      rfl
    · rw [Nat.mod_eq_of_lt (by omega)]

theorem visits_places (hs : Straight W S h n) (hv : Visits W S h n as) : as = places S h n := by
  induction hv with
  | done => rfl
  | @read h n as m hpos hle hfits _ ih =>
    have hrest : Straight W S ((h + m) % W) (n - m) := by
      refine hs.imp_right fun hsum => ?_
      have := Nat.mod_le (h + m) W
      omega
    rw [ih hrest, places_reduced hs hle, ← places_of_le hfits, places_mod, ← places_add,
      Nat.add_sub_cancel' hle]

/-- The reading byte by byte. -/
theorem visits_ones (hS : 0 < S) (hW : h < W) :
    Visits W S h n ((List.range n).map fun k => (h + k) % W % S) := by
  induction n generalizing h with
  | zero => exact .done
  | succ n ih =>
    have hm : h % S < S := Nat.mod_lt _ hS
    have hnext := ih (Nat.mod_lt (h + 1) (by omega))
    have hv := Visits.read 1 Nat.zero_lt_one (Nat.succ_le_succ (Nat.zero_le n)) hm hnext
    have hmap : ((List.range (n + 1)).map fun k => (h + k) % W % S) =
        piece (h % S) 1 ++ (List.range n).map fun k => ((h + 1) % W + k) % W % S := by
      rw [List.range_succ_eq_map, List.map_cons, List.map_map, Nat.add_zero, Nat.mod_eq_of_lt hW]
      refine congrArg (h % S :: ·) (List.map_congr_left fun k _ => ?_)
      simp only [Function.comp_apply, Nat.mod_add_mod, Nat.add_assoc, Nat.add_comm 1 k,
        Nat.succ_eq_add_one]
    rw [hmap]
    exact hv

/-- A piece of `m` is taken first, and the rest in some way. -/
theorem exists_visits_piece {m : Nat} (hS : 0 < S) (hW : 0 < W) (hpos : 0 < m) (hle : m ≤ n)
    (hfits : h % S + m ≤ S) : ∃ as, Visits W S h n (piece (h % S) m ++ as) :=
  ⟨_, .read m hpos hle hfits (visits_ones hS (Nat.mod_lt _ hW))⟩

theorem getElem?_piece {off m i : Nat} (h : i < m) : (piece off m)[i]? = some (off + i) := by
  simp [piece, h]

/-- The end of the ring behind the counter. -/
theorem dvd_ringEnd (hS : 0 < S) : S ∣ h + (S - h % S) := by
  have hdiv := Nat.div_add_mod h S
  have hm : h % S < S := Nat.mod_lt _ hS
  refine ⟨h / S + 1, ?_⟩
  rw [Nat.mul_succ]
  omega

/-- A way of reading that takes the byte at which the counter is reduced with
others before it, not from the start of the ring. -/
theorem exists_visits_past (hS : 0 < S) (hW : h < W) (hn : n ≤ S) (hs : ¬Straight W S h n) :
    ∃ as a, Visits W S h n as ∧ as[W - h]? = some a ∧ 0 < a := by
  have hr : h % S < S := Nat.mod_lt _ hS
  have hend := dvd_ringEnd (h := h) hS
  have hsum : W < h + n := Nat.lt_of_not_le fun hle => hs (.inr hle)
  have hne : h + (S - h % S) ≠ W := fun heq => hs (.inl (heq ▸ hend))
  rcases Nat.lt_or_ge W (h + (S - h % S)) with hpast | hbefore
  · -- the first piece reaches past it
    obtain ⟨as, hv⟩ := exists_visits_piece (m := min n (S - h % S)) hS (Nat.zero_lt_of_lt hW)
      (by omega) (Nat.min_le_left _ _) (show h % S + min n (S - h % S) ≤ S by omega)
    refine ⟨_, h % S + (W - h), hv, ?_, by omega⟩
    rw [List.getElem?_append_left (by rw [length_piece]; omega), getElem?_piece (by omega)]
  · -- the second one does, and starts at 0
    have hstart : (h + (S - h % S)) % W % S = 0 := by
      rw [Nat.mod_eq_of_lt (Nat.lt_of_le_of_ne hbefore hne), Nat.mod_eq_zero_of_dvd hend]
    have hfits : (h + (S - h % S)) % W % S + (n - (S - h % S)) ≤ S := by
      rw [hstart]
      omega
    obtain ⟨as, hv⟩ := exists_visits_piece hS (Nat.zero_lt_of_lt hW) (by omega)
      (Nat.le_refl (n - (S - h % S))) hfits
    rw [hstart] at hv
    refine ⟨_, W - (h + (S - h % S)), .read (S - h % S) (by omega) (by omega) (by omega) hv, ?_,
      by omega⟩
    rw [List.getElem?_append_right (by rw [length_piece]; omega), length_piece,
      List.getElem?_append_left (by rw [length_piece]; omega), getElem?_piece (by omega)]
    congr 1
    omega

/-- Where the reduction of the counter moves it, what is read past it depends
on the pieces. -/
theorem exists_visits_ne (hS : 0 < S) (hW : h < W) (hn : n ≤ S) (hs : ¬Straight W S h n) :
    ∃ as bs, Visits W S h n as ∧ Visits W S h n bs ∧ as ≠ bs := by
  obtain ⟨as, a, has, hget, hpos⟩ := exists_visits_past hS hW hn hs
  refine ⟨as, _, has, visits_ones hS hW, ?_⟩
  rintro rfl
  have hsum : W < h + n := Nat.lt_of_not_le fun hle => hs (.inr hle)
  rw [List.getElem?_map, List.getElem?_range (by omega), Option.map_some, Option.some_inj,
    Nat.add_sub_cancel' (Nat.le_of_lt hW), Nat.mod_self, Nat.zero_mod] at hget
  omega

/-! ## Rings of two sizes -/

theorem places_eq_of_lt {S' : Nat} (hS : 0 < S) (hlt : S < S') (hn : n ≤ S) :
    places S h n = places S' h n ↔ n = 0 ∨ h % S = h % S' ∧ h % S + n ≤ S := by
  have hr : h % S < S := Nat.mod_lt _ hS
  constructor
  · intro heq
    rcases Nat.eq_zero_or_pos n with hzero | hpos
    · exact .inl hzero
    have hplace : ∀ k, k < n → (h + k) % S = (h + k) % S' := by
      intro k hk
      have hget := congrArg (·[k]?) heq
      simpa [places, hk] using hget
    have hfirst : h % S = h % S' := hplace 0 hpos
    refine .inr ⟨hfirst, Nat.le_of_not_lt fun hwrap => ?_⟩
    -- the first place behind the end of the smaller ring
    have hend := hplace (S - h % S) (by omega)
    rw [Nat.mod_eq_zero_of_dvd (dvd_ringEnd hS), ← Nat.mod_add_mod, ← hfirst,
      Nat.mod_eq_of_lt (by omega)] at hend
    omega
  · rintro (rfl | ⟨hfirst, hle⟩)
    · rfl
    · rw [← places_mod S, ← places_mod S', ← hfirst, places_of_le hle,
        places_of_le (Nat.le_trans hle (Nat.le_of_lt hlt))]

theorem places_eq_iff {S' : Nat} (hS : 0 < S) (hS' : 0 < S') (hn : n ≤ S) (hn' : n ≤ S') :
    places S h n = places S' h n ↔
      n = 0 ∨ S' = S ∨ h % S = h % S' ∧ h % S + n ≤ min S S' := by
  rcases Nat.lt_trichotomy S S' with hlt | rfl | hgt
  · rw [places_eq_of_lt hS hlt hn, Nat.min_eq_left (Nat.le_of_lt hlt)]
    have hne : S' ≠ S := Nat.ne_of_gt hlt
    tauto
  · simp
  · rw [eq_comm, places_eq_of_lt hS' hgt hn', Nat.min_eq_right (Nat.le_of_lt hgt)]
    have hne : S' ≠ S := Nat.ne_of_lt hgt
    refine or_congr_right ⟨fun ⟨hr, hle⟩ => .inr ⟨hr.symm, hr ▸ hle⟩, ?_⟩
    rintro (heq | ⟨hr, hle⟩)
    · exact absurd heq hne
    · exact ⟨hr.symm, hr ▸ hle⟩

/-- Places at which every memory has the same bytes. -/
theorem eq_of_map_eq {as bs : List Nat} (heq : ∀ q : Mem, as.map q = bs.map q) : as = bs := by
  have hlen : as.length = bs.length := by simpa using congrArg List.length (heq fun _ => 0)
  refine List.ext_getElem hlen fun i ha hb => ?_
  have hget := List.getElem_of_eq (heq fun a => if a = as[i] then 1 else 0) (by simpa using ha)
  simp only [List.getElem_map, if_true] at hget
  by_contra hne
  rw [if_neg (Ne.symm hne)] at hget
  exact absurd hget (by decide)

end NatFramework.Lib
