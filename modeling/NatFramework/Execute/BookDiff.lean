import NatFramework.Execute.CBaseSignal
import NatFramework.Lib.SortedDiff

/-!
# The difference of two order books

`GetOBDMap2` is the difference of two ranked tables, of which the price is the key
and the volume the count: the bids ranked by a falling price, the asks by a rising
one.

* `levelDelta_spec`: the entries are those of `diff`, and zeros behind them.
* `obdMap2_spec`: for books in order no entry is written outside of the ten.
-/
namespace NatFramework.Execute

open Lib Lib.SortedDiff

/-- The levels of one side as a table. -/
def levels (px vol : Vector Int 5) : List (Int × Int) := px.toList.zip vol.toList

theorem length_levels (px vol : Vector Int 5) : (levels px vol).length = 5 := by
  simp [levels]

theorem drop_levels (px vol : Vector Int 5) {i : Nat} (hi : i < 5) :
    (levels px vol).drop i = (px[i], vol[i]) :: (levels px vol).drop (i + 1) := by
  rw [List.drop_eq_getElem_cons (by rw [length_levels]; exact hi)]
  simp [levels]

theorem drop_levels_nil (px vol : Vector Int 5) {i : Nat} (hi : ¬i < 5) :
    (levels px vol).drop i = [] :=
  List.drop_eq_nil_of_le (by rw [length_levels]; omega)

/-- The entries `es`, and zeros behind them. -/
structure Delta.Shows (d : Delta) (es : List (Int × Int)) : Prop where
  length_le : es.length ≤ 10
  px : d.px.toList = es.map Prod.fst ++ List.replicate (10 - es.length) 0
  vol : d.vol.toList = es.map Prod.snd ++ List.replicate (10 - es.length) 0

theorem shows_zero : Delta.zero.Shows [] := ⟨by decide, rfl, rfl⟩

theorem set_padded (xs : List Int) {n : Nat} (x : Int) (h : xs.length < n) :
    (xs ++ List.replicate (n - xs.length) 0).set xs.length x =
      xs ++ [x] ++ List.replicate (n - (xs.length + 1)) 0 := by
  obtain ⟨m, hm⟩ : ∃ m, n - xs.length = m + 1 := ⟨n - xs.length - 1, by omega⟩
  rw [hm, List.set_append_right _ _ (Nat.le_refl _), Nat.sub_self, List.replicate_succ,
    List.set_cons_zero, show n - (xs.length + 1) = m by omega, List.append_assoc]
  rfl

namespace Delta.Shows

variable {d : Delta} {es : List (Int × Int)}

theorem vol_get (h : d.Shows es) (hk : es.length < 10) : d.vol[es.length] = 0 := by
  have hget : d.vol.toList[es.length]? = some 0 := by
    rw [h.vol, List.getElem?_append_right (by simp), List.length_map, Nat.sub_self,
      List.getElem?_replicate, if_pos (by omega)]
  rw [Vector.getElem?_toList] at hget
  exact (Vector.getElem?_eq_some_iff.mp hget).2

theorem push (h : d.Shows es) (hk : es.length < 10) (p v : Int) :
    Delta.Shows ⟨d.px.set es.length p, d.vol.set es.length v⟩ (es ++ [(p, v)]) := by
  have hp := set_padded (es.map Prod.fst) p (by simpa using hk)
  have hv := set_padded (es.map Prod.snd) v (by simpa using hk)
  rw [List.length_map] at hp hv
  refine ⟨by simp; omega, ?_, ?_⟩
  · rw [Vector.toList_set, h.px, hp]
    simp
  · rw [Vector.toList_set, h.vol, hv]
    simp

end Delta.Shows

theorem skip_spec (ahead : Int → Int → Bool) (px vol : Vector Int 5) (best : Int) (i : Nat) :
    (levels px vol).drop (skip ahead px best i) =
      ((levels px vol).drop i).dropWhile fun e => ahead e.1 best := by
  fun_induction skip ahead px best i with
  | case1 i hi hahead ih => rw [ih, drop_levels px vol hi, List.dropWhile_cons, if_pos hahead]
  | case2 i hi hahead => rw [drop_levels px vol hi, List.dropWhile_cons, if_neg hahead]
  | case3 i hi => rw [drop_levels_nil px vol hi, List.dropWhile_nil]

variable {ahead : Int → Int → Bool} {lastp lastv px vol : Vector Int 5}

/-- The loop writes the difference of the levels that are left. No more entries are
written than levels passed, so there is room for each. -/
theorem mergeLevels_spec (lastp lastv px vol : Vector Int 5) (hr : Ranking ahead) {i j : Nat} {es : List (Int × Int)} {d : Delta}
    (hd : d.Shows es) (hk : es.length ≤ i + j) :
    ∃ d', mergeLevels ahead lastp lastv px vol i j es.length d = .ok d' ∧
      d'.Shows (es ++ diffFrom ahead ((levels lastp lastv).drop i) ((levels px vol).drop j)) := by
  obtain ⟨k, hlen⟩ : ∃ k, k = es.length := ⟨_, rfl⟩
  rw [← hlen]
  fun_induction mergeLevels ahead lastp lastv px vol i j k d generalizing es with
  | case1 i j k d hi hj hroom p v v₁ i' hlast v₂ j' hcur =>
    rename_i ih
    subst hlen
    have hv : v = 0 := hd.vol_get hroom
    have hstep : diffFrom ahead ((levels lastp lastv).drop i) ((levels px vol).drop j) =
          (p, v₂) :: diffFrom ahead ((levels lastp lastv).drop i') ((levels px vol).drop j') ∧
        i + j < i' + j' := by
      rw [hv] at hlast
      rw [drop_levels lastp lastv hi, drop_levels px vol hj, diffFrom]
      by_cases hahead : ahead lastp[i] px[j]
      · have hp : p = lastp[i] := dif_pos hahead
        rw [dif_pos hp, Prod.mk.injEq] at hlast
        obtain ⟨rfl, rfl⟩ := hlast
        have hne : p ≠ px[j] := by
          intro heq
          rw [hp] at heq
          rw [heq] at hahead
          exact hr.irrefl _ hahead
        rw [dif_neg hne, Prod.mk.injEq] at hcur
        obtain ⟨rfl, rfl⟩ := hcur
        rw [if_pos hahead, hp, drop_levels px vol hj, Int.zero_sub]
        exact ⟨rfl, by omega⟩
      · have hp : p = px[j] := dif_neg hahead
        rw [dif_pos hp, Prod.mk.injEq] at hcur
        rw [if_neg hahead]
        by_cases heq : lastp[i] = px[j]
        · rw [dif_pos (hp.trans heq.symm), Prod.mk.injEq] at hlast
          obtain ⟨rfl, rfl⟩ := hlast
          obtain ⟨rfl, rfl⟩ := hcur
          have hsum : (0 : Int) - lastv[i] + vol[j] = vol[j] - lastv[i] := by omega
          rw [if_pos heq, hp, heq, hsum]
          exact ⟨rfl, by omega⟩
        · have hne : p ≠ lastp[i] := fun h => heq (h.symm.trans hp)
          rw [dif_neg hne, Prod.mk.injEq] at hlast
          obtain ⟨rfl, rfl⟩ := hlast
          obtain ⟨rfl, rfl⟩ := hcur
          rw [if_neg heq, hp, drop_levels lastp lastv hi, Int.zero_add]
          exact ⟨rfl, by omega⟩
    obtain ⟨d', hok, hshows⟩ := ih (hd.push hroom p v₂)
      (by rw [List.length_append, List.length_singleton]; omega)
      (by rw [List.length_append, List.length_singleton])
    refine ⟨d', hok, ?_⟩
    rw [hstep.1]
    rwa [List.append_assoc] at hshows
  | case2 i j k d hi hj hfull =>
    omega
  | case3 i j k d hi hj =>
    rw [drop_levels_nil px vol hj, diffFrom_nil_right, List.append_nil]
    exact ⟨d, rfl, hd⟩
  | case4 i j k d hi =>
    rw [drop_levels_nil lastp lastv hi, diffFrom, List.append_nil]
    exact ⟨d, rfl, hd⟩

theorem levelDelta_spec (lastp lastv px vol : Vector Int 5) (hr : Ranking ahead) :
    ∃ d, levelDelta ahead lastp lastv px vol = .ok d ∧
      d.Shows (diff ahead (levels lastp lastv) (levels px vol)) := by
  obtain ⟨d, hok, hshows⟩ := mergeLevels_spec lastp lastv px vol hr
    (i := skip ahead lastp px[0] 0) (j := skip ahead px lastp[0] 0) shows_zero (Nat.zero_le _)
  refine ⟨d, hok, ?_⟩
  have hlast : levels lastp lastv = (lastp[0], lastv[0]) :: (levels lastp lastv).drop 1 :=
    drop_levels lastp lastv (i := 0) (by decide)
  have hcur : levels px vol = (px[0], vol[0]) :: (levels px vol).drop 1 :=
    drop_levels px vol (i := 0) (by decide)
  rw [List.nil_append, skip_spec, skip_spec, List.drop_zero, List.drop_zero] at hshows
  rw [hlast, hcur, diff, ← hlast, ← hcur]
  exact hshows

/-! ## Books in order -/

theorem keys_levels (px vol : Vector Int 5) : keys (levels px vol) = px.toList := by
  unfold keys levels
  exact List.map_fst_zip (by simp)

theorem ranked_levels (h : px.toList.Pairwise fun a b => ahead a b) (vol : Vector Int 5) :
    Ranked ahead (levels px vol) := by
  rw [← keys_levels px vol, keys, List.pairwise_map] at h
  exact h

theorem levels_last (px vol : Vector Int 5) :
    levels px vol = (levels px vol).take 4 ++ [(worst px, worst vol)] := by
  have hdrop : (levels px vol).drop 4 = [(worst px, worst vol)] := by
    rw [drop_levels px vol (by decide), drop_levels_nil px vol (by decide)]
    rfl
  rw [← hdrop, List.take_append_drop]

/-- Within a book in order is between its first and its last price. -/
theorem within_levels (hr : Ranking ahead) (h : px.toList.Pairwise fun a b => ahead a b) {p : Int} :
    Within ahead (levels px vol) p ↔ ¬ahead p (best px) ∧ ¬ahead (worst px) p := by
  have hranked := ranked_levels h vol
  have hfirst : levels px vol = (px[0], vol[0]) :: (levels px vol).drop 1 :=
    drop_levels px vol (i := 0) (by decide)
  have hreach : Reaches ahead (levels px vol) p ↔ ¬ahead (worst px) p := by
    constructor
    · rintro ⟨e, he, hep⟩ hlast
      rw [levels_last, List.mem_append, List.mem_singleton] at he
      rcases he with he | rfl
      · rw [levels_last, Ranked, List.pairwise_append] at hranked
        exact hep (hr.trans _ _ _ (hranked.2.2 e he _ (List.mem_singleton_self _)) hlast)
      · exact hep hlast
    · intro hp
      refine ⟨(worst px, worst vol), ?_, hp⟩
      rw [levels_last]
      exact List.mem_append_right _ (List.mem_singleton_self _)
  rw [← hreach]
  rw [hfirst] at hranked ⊢
  exact within_cons hr hranked

theorem ranking_gt : Ranking fun p q : Int => decide (p > q) where
  irrefl := by simp
  trans := by simp; omega
  connex := by simp; omega

theorem ranking_lt : Ranking fun p q : Int => decide (p < q) where
  irrefl := by simp
  trans := by simp; omega
  connex := by simp; omega

/-- The entries of one side: one for each price of either book that is `inside`, in
order, with what its volume has changed by, and zeros behind them. -/
def Differs (ahead : Int → Int → Prop) (lastp lastv px vol : Vector Int 5) (inside : Int → Prop)
    (d : Delta) : Prop :=
  ∃ es, d.Shows es ∧ (es.Pairwise fun a b => ahead a.1 b.1) ∧
    (∀ p, p ∈ keys es ↔ (p ∈ lastp.toList ∨ p ∈ px.toList) ∧ inside p) ∧
    ∀ e ∈ es, e.2 = count (levels px vol) e.1 - count (levels lastp lastv) e.1

theorem differs_of_levelDelta {rel : Int → Int → Prop} (lastv vol : Vector Int 5) (inside : Int → Prop)
    (hr : Ranking ahead) (hrel : ∀ a b, ahead a b ↔ rel a b) (hlast : lastp.toList.Pairwise rel)
    (hcur : px.toList.Pairwise rel)
    (hinside : ∀ p, (¬rel p (best lastp) ∧ ¬rel (worst lastp) p) ∧ ¬rel p (best px) ∧ ¬rel (worst px) p ↔
      inside p) :
    ∃ d, levelDelta ahead lastp lastv px vol = .ok d ∧ Differs rel lastp lastv px vol inside d := by
  have hlast' : lastp.toList.Pairwise fun a b => ahead a b := hlast.imp (hrel _ _).mpr
  have hcur' : px.toList.Pairwise fun a b => ahead a b := hcur.imp (hrel _ _).mpr
  have hl := ranked_levels hlast' lastv
  have hm := ranked_levels hcur' vol
  obtain ⟨d, hok, hshows⟩ := levelDelta_spec lastp lastv px vol hr
  refine ⟨d, hok, diff ahead (levels lastp lastv) (levels px vol), hshows,
    (ranked_diff hr hl hm).imp (hrel _ _).mp, fun p => ?_, fun e he => count_diff hr hl hm he⟩
  rw [mem_diff hr hl hm, keys_levels, keys_levels, within_levels hr hlast', within_levels hr hcur',
    ← hinside p]
  simp only [hrel]

/-- The books are in order: the bids from the best price down, the asks up. -/
structure InOrder (ms : CMarketStruct) : Prop where
  lastbidp : ms.lastbidp.toList.Pairwise (· > ·)
  bidp : ms.bidp.toList.Pairwise (· > ·)
  lastaskp : ms.lastaskp.toList.Pairwise (· < ·)
  askp : ms.askp.toList.Pairwise (· < ·)

theorem obdMap2_spec (s : CBaseSignal) {ms : CMarketStruct} (h : InOrder ms) :
    ∃ bid ask, s.getOBDMap2 ms = .ok { s with deltaMdBid := bid, deltaMdAsk := ask } ∧
      Differs (· > ·) ms.lastbidp ms.lastbidv ms.bidp ms.bidv
        (fun p => max (worst ms.lastbidp) (worst ms.bidp) ≤ p ∧ p ≤ min (best ms.lastbidp) (best ms.bidp)) bid ∧
      Differs (· < ·) ms.lastaskp ms.lastaskv ms.askp ms.askv
        (fun p => max (best ms.lastaskp) (best ms.askp) ≤ p ∧ p ≤ min (worst ms.lastaskp) (worst ms.askp)) ask := by
  obtain ⟨bid, hbid, hbids⟩ := differs_of_levelDelta ms.lastbidv ms.bidv
    (fun p => max (worst ms.lastbidp) (worst ms.bidp) ≤ p ∧ p ≤ min (best ms.lastbidp) (best ms.bidp)) ranking_gt
    (fun a b => decide_eq_true_iff) h.lastbidp h.bidp (fun p => by omega)
  obtain ⟨ask, hask, hasks⟩ := differs_of_levelDelta ms.lastaskv ms.askv
    (fun p => max (best ms.lastaskp) (best ms.askp) ≤ p ∧ p ≤ min (worst ms.lastaskp) (worst ms.askp)) ranking_lt
    (fun a b => decide_eq_true_iff) h.lastaskp h.askp (fun p => by omega)
  refine ⟨bid, ask, ?_, hbids, hasks⟩
  unfold CBaseSignal.getOBDMap2
  rw [hbid, hask]
  rfl

/-- The bids move up by a tick, the asks stay. -/
def movedTick : CMarketStruct :=
  { askv := #v[5, 6, 7, 8, 9], askp := #v[103, 104, 105, 106, 108], bidv := #v[1, 2, 3, 4, 5]
    bidp := #v[102, 101, 100, 99, 98], lastaskp := #v[103, 104, 105, 106, 107]
    lastaskv := #v[5, 5, 5, 5, 5], lastbidp := #v[101, 100, 99, 98, 97]
    lastbidv := #v[7, 7, 7, 7, 7], tradevol := 0, turnover := 0, avgprice := 0 }

theorem obdMap2_movedTick :
    ∃ bid ask, CBaseSignal.getOBDMap2 ⟨0, 0, 0, .zero, .zero⟩ movedTick = .ok ⟨0, 0, 0, bid, ask⟩ ∧
      Differs (· > ·) movedTick.lastbidp movedTick.lastbidv movedTick.bidp movedTick.bidv
        (fun p => 98 ≤ p ∧ p ≤ 101) bid ∧
      Differs (· < ·) movedTick.lastaskp movedTick.lastaskv movedTick.askp movedTick.askv
        (fun p => 103 ≤ p ∧ p ≤ 107) ask :=
  obdMap2_spec ⟨0, 0, 0, .zero, .zero⟩ ⟨by decide, by decide, by decide, by decide⟩

end NatFramework.Execute
