import NatFramework.Risk.SelfTrade
import NatFramework.Risk.TreapNodes

/-!
# A node that nobody takes out

Two records of an instrument see the same calls, and one has got a node more. The
self-trade check answers from the treaps, which read the nodes in the storage of
`vec_treap_node`.

* `check_iff_nodes`: the two answers mean a node of the other side that would be crossed.
* `Shadowed`: each node of the second record is in the first, or is the stray one, behind a
  node of the same reference that is as good. `Shadowed.next`: a call keeps it.
* `linksValid_news`, `not_linksValid_news`: orders and nothing else, up to the end of the
  storage and beyond.
-/
namespace NatFramework.Risk.StoredTop

open Lib Account

variable {grow : Nat → Nat} {r r' : StoredTop} {buy : Bool}

/-- The nodes that a treap links, as they were inserted. -/
def nodes (buy : Bool) (r : StoredTop) : List TreapNode := (if buy then r.bidTreap else r.askTreap).map (·.node)

/-- Each node is on its side, and its reference is an `int`. -/
def Sided (r : StoredTop) : Prop :=
  ∀ buy, ∀ n ∈ r.nodes buy, decide (n.dir = .buy) = buy ∧ toInt n.orderRef = n.orderRef

/-- What a call takes out of a side. -/
def Drops (buy : Bool) (n : TreapNode) : TopEvent → Prop
  | .onNew .. => False
  | .onCxl t => buy = decide (t.dir = .buy) ∧ n.orderRef = toInt t.orderRef
  | .onTrd t => t.volTraded = t.vol ∧ buy = decide (t.dir = .buy) ∧ n.orderRef = toInt t.orderRef
  | .onSwitchDay => True

/-- What it adds. -/
def adds (buy : Bool) : TopEvent → List TreapNode
  | .onNew dir px orderRef _ =>
    if buy = decide (dir = .buy) then [{ orderRef := toInt orderRef, price := px, dir := dir }] else []
  | _ => []

/-! ## One call -/

theorem nodes_onNew (dir : Dir) (px : ℚ) (orderRef nano : Int) :
    (r.onNew grow dir px orderRef nano).nodes buy = r.nodes buy ++ adds buy (.onNew dir px orderRef nano) := by
  unfold onNew nodes adds
  by_cases hd : dir = .buy <;> cases buy <;> simp [hd]

theorem mem_nodes_erase {v : GrowVec TreapNode} {t : List Linked} {n : TreapNode} {ref : Int}
    (h : ∀ l ∈ t, v.deref l.addr = some l.node) :
    n ∈ (erase v ref t).map (·.node) ↔ n ∈ t.map (·.node) ∧ n.orderRef ≠ ref := by
  simp only [erase, List.mem_map, List.mem_filter, decide_eq_true_eq]
  constructor
  · rintro ⟨l, ⟨hl, hne⟩, rfl⟩
    rw [h l hl] at hne
    exact ⟨⟨l, hl, rfl⟩, fun heq => hne (congrArg some heq)⟩
  · rintro ⟨⟨l, hl, rfl⟩, hne⟩
    refine ⟨l, ⟨hl, ?_⟩, rfl⟩
    rw [h l hl]
    exact fun heq => hne (Option.some.inj heq)

theorem mem_nodes_onCxl (hr : r.LinksValid) {t : OrderTrack} {n : TreapNode} :
    n ∈ (r.onCxl t).nodes buy ↔ n ∈ r.nodes buy ∧ ¬Drops buy n (.onCxl t) := by
  unfold onCxl nodes Drops
  by_cases hd : t.dir = .buy <;> cases buy <;>
    simp [hd, mem_nodes_erase hr.bid, mem_nodes_erase hr.ask]

/-- As long as the links are good, a call adds its node and drops those of its reference. -/
theorem mem_nodes_next (hr : r.LinksValid) (e : TopEvent) {n : TreapNode} :
    n ∈ (r.next grow e).nodes buy ↔ n ∈ r.nodes buy ∧ ¬Drops buy n e ∨ n ∈ adds buy e := by
  cases e with
  | onNew dir px orderRef nano =>
    rw [next, nodes_onNew, List.mem_append]
    simp [Drops]
  | onCxl t =>
    rw [next, mem_nodes_onCxl hr]
    simp [adds]
  | onTrd t =>
    rw [next, onTrd_eq]
    split
    · rename_i hfull
      rw [mem_nodes_onCxl hr]
      simp [Drops, adds, hfull]
    · rename_i hfull
      simp [Drops, adds, hfull]
  | onSwitchDay =>
    cases buy <;> simp [next, onSwitchDay, nodes, Drops, adds]

/-- A call keeps the nodes on their sides, also when it leaves links behind. -/
theorem Sided.next (h : r.Sided) (e : TopEvent) : (r.next grow e).Sided := by
  have hcxl : ∀ t, (r.onCxl t).Sided := by
    intro t buy n hn
    refine h buy n ?_
    obtain ⟨l, hl, rfl⟩ := List.mem_map.mp hn
    refine List.mem_map.mpr ⟨l, ?_, rfl⟩
    unfold onCxl at hl
    cases buy <;> simp only [if_true, Bool.false_eq_true, if_false] at hl ⊢ <;> split at hl
    · exact hl
    · exact mem_of_mem_erase hl
    · exact mem_of_mem_erase hl
    · exact hl
  cases e with
  | onNew dir px orderRef nano =>
    intro buy n hn
    rw [StoredTop.next, nodes_onNew] at hn
    rcases List.mem_append.mp hn with hn | hn
    · exact h buy n hn
    · rw [adds] at hn
      split at hn
      · rename_i hbuy
        obtain rfl := List.mem_singleton.mp hn
        exact ⟨hbuy.symm, Int.bmod_bmod⟩
      · cases hn
  | onCxl t => exact hcxl t
  | onTrd t =>
    rw [StoredTop.next, onTrd_eq]
    split
    · exact hcxl t
    · exact h
  | onSwitchDay =>
    intro buy n hn
    cases buy <;> cases hn

theorem Sided.exec (h : r.Sided) (es : List TopEvent) : (r.exec grow es).Sided := by
  induction es generalizing r with
  | nil => exact h
  | cons e es ih => exact ih (h.next e)

theorem sided_new (l : RiskInstr) : (new l).Sided := by
  intro buy n hn
  cases buy <;> cases hn

/-! ## The answers -/

/-- **The self-trade answers** of a record whose links are good. -/
theorem check_iff_nodes (hr : r.LinksValid) (hsided : r.Sided) (ab : AccBase) (dir : Dir) (off : Off) (px : ℚ)
    (vol nano : Int) :
    (r.check ab dir off px vol nano = -230 ↔ dir = .buy ∧ ∃ n ∈ r.nodes false, n.price ≤ px) ∧
      (r.check ab dir off px vol nano = -231 ↔ dir ≠ .buy ∧ ∃ n ∈ r.nodes true, px ≤ n.price) := by
  have hask := RiskTop.exists_mem_iff_top (listOps_lawful _ _) (fun n hn => (hsided false n hn).1) (-px)
  have hbid := RiskTop.exists_mem_iff_top (listOps_lawful _ _) (fun n hn => (hsided true n hn).1) px
  simp only [RiskTop.worth, Bool.false_eq_true, if_false, if_true, neg_le_neg_iff] at hask hbid
  rw [check_forget hr]
  obtain ⟨h230, h231⟩ := r.forget.check_iff_top ab dir off px vol nano
  exact ⟨h230.trans (and_congr_right fun _ => hask.symm), h231.trans (and_congr_right fun _ => hbid.symm)⟩

/-- The two answers are the same for every order. -/
def SameAnswers (r r' : StoredTop) : Prop :=
  ∀ (ab : AccBase) (dir : Dir) (off : Off) (px : ℚ) (vol nano : Int),
    (r'.check ab dir off px vol nano = -230 ↔ r.check ab dir off px vol nano = -230) ∧
    (r'.check ab dir off px vol nano = -231 ↔ r.check ab dir off px vol nano = -231)

theorem SameAnswers.refl (r : StoredTop) : SameAnswers r r := fun _ _ _ _ _ _ => ⟨Iff.rfl, Iff.rfl⟩

/-- The answers are the same exactly when the nodes of each side cross the same prices. -/
theorem sameAnswers_iff_nodes (hr : r.LinksValid) (hr' : r'.LinksValid) (hs : r.Sided) (hs' : r'.Sided) :
    SameAnswers r r' ↔ ∀ (b : Bool) (w : ℚ), (∃ n ∈ r'.nodes b, w ≤ RiskTop.worth b n.price) ↔
      ∃ n ∈ r.nodes b, w ≤ RiskTop.worth b n.price := by
  constructor
  · intro h b w
    cases b with
    | true =>
      have hw := (h {} .sell .opn w 1 0).2
      rw [(check_iff_nodes hr hs _ _ _ _ _ _).2, (check_iff_nodes hr' hs' _ _ _ _ _ _).2] at hw
      simpa [RiskTop.worth] using hw
    | false =>
      have hw := (h {} .buy .opn (-w) 1 0).1
      rw [(check_iff_nodes hr hs _ _ _ _ _ _).1, (check_iff_nodes hr' hs' _ _ _ _ _ _).1] at hw
      simpa [RiskTop.worth, le_neg] using hw
  · intro h ab dir off px vol nano
    have hask := h false (-px)
    have hbid := h true px
    simp only [RiskTop.worth, Bool.false_eq_true, if_false, if_true, neg_le_neg_iff] at hask hbid
    rw [(check_iff_nodes hr hs _ _ _ _ _ _).1, (check_iff_nodes hr hs _ _ _ _ _ _).2,
      (check_iff_nodes hr' hs' _ _ _ _ _ _).1, (check_iff_nodes hr' hs' _ _ _ _ _ _).2, hask, hbid]
    exact ⟨Iff.rfl, Iff.rfl⟩

/-! ## The stray node -/

/-- Of two records that differ by node `x` of one side. -/
structure Shadowed (buy : Bool) (x : TreapNode) (r r' : StoredTop) : Prop where
  other : ∀ n, n ∈ r'.nodes (!buy) ↔ n ∈ r.nodes (!buy)
  kept : ∀ n ∈ r.nodes buy, n ∈ r'.nodes buy
  stray : ∀ n ∈ r'.nodes buy, n ∈ r.nodes buy ∨ n = x ∧ ∃ m ∈ r.nodes buy,
    m.orderRef = x.orderRef ∧ RiskTop.worth buy x.price ≤ RiskTop.worth buy m.price

/-- What takes the node out takes the one before it out too. -/
theorem Drops.congr {x m : TreapNode} {e : TopEvent} (h : m.orderRef = x.orderRef) : Drops buy m e ↔ Drops buy x e := by
  cases e <;> simp only [Drops, h]

theorem Shadowed.next {x : TreapNode} (h : Shadowed buy x r r') (hr : r.LinksValid) (hr' : r'.LinksValid)
    (e : TopEvent) : Shadowed buy x (r.next grow e) (r'.next grow e) where
  other n := by rw [mem_nodes_next hr, mem_nodes_next hr', h.other]
  kept n hn := by
    rw [mem_nodes_next hr] at hn
    rw [mem_nodes_next hr']
    exact hn.imp_left fun ⟨hin, hdrop⟩ => ⟨h.kept n hin, hdrop⟩
  stray n hn := by
    rw [mem_nodes_next hr'] at hn
    rw [mem_nodes_next hr]
    rcases hn with ⟨hin, hdrop⟩ | hadd
    · rcases h.stray n hin with hin | ⟨rfl, m, hm, href, hworth⟩
      · exact .inl (.inl ⟨hin, hdrop⟩)
      · refine .inr ⟨rfl, m, ?_, href, hworth⟩
        rw [mem_nodes_next hr]
        exact .inl ⟨hm, fun hd => hdrop ((Drops.congr href).mp hd)⟩
    · exact .inl (.inr hadd)

/-- As long as it stands behind another, the node does not show. -/
theorem Shadowed.sameAnswers {x : TreapNode} (h : Shadowed buy x r r') (hr : r.LinksValid) (hr' : r'.LinksValid)
    (hs : r.Sided) (hs' : r'.Sided) : SameAnswers r r' := by
  refine (sameAnswers_iff_nodes hr hr' hs hs').mpr fun b w => ?_
  by_cases hb : b = buy
  · subst hb
    constructor
    · rintro ⟨n, hn, hw⟩
      rcases h.stray n hn with hn | ⟨rfl, m, hm, -, hworth⟩
      · exact ⟨n, hn, hw⟩
      · exact ⟨m, hm, hw.trans hworth⟩
    · rintro ⟨n, hn, hw⟩
      exact ⟨n, h.kept n hn, hw⟩
  · obtain rfl : b = !buy := Bool.eq_not_of_ne hb
    simp only [h.other]

/-! ## Up to the end of the storage -/

theorem length_news {e : TopEvent} (he : ∃ dir px orderRef nano, e = .onNew dir px orderRef nano) (k : Nat) :
    (r.exec grow (List.replicate k e)).vecTreapNode.elems.length = r.vecTreapNode.elems.length + k := by
  obtain ⟨dir, px, orderRef, nano, rfl⟩ := he
  induction k with
  | zero => rfl
  | succ k ih =>
    rw [List.replicate_succ', exec_concat, next, vec_onNew, GrowVec.elems_emplaceBack, List.length_append, ih]
    rfl

/-- With room for all of them, orders leave no link behind. -/
theorem linksValid_news (hr : r.LinksValid) {e : TopEvent}
    (he : ∃ dir px orderRef nano, e = .onNew dir px orderRef nano) {k : Nat}
    (hk : r.vecTreapNode.elems.length + k ≤ r.vecTreapNode.capacity) :
    (r.exec grow (List.replicate k e)).LinksValid ∧
      (r.exec grow (List.replicate k e)).vecTreapNode.capacity = r.vecTreapNode.capacity := by
  induction k with
  | zero => exact ⟨hr, rfl⟩
  | succ k ih =>
    obtain ⟨hvalid, hcap⟩ := ih (by omega)
    have hlen := @length_news grow r e he k
    have hroom : ¬(r.exec grow (List.replicate k e)).vecTreapNode.Full := by
      rw [GrowVec.Full, hlen, hcap]
      omega
    obtain ⟨dir, px, orderRef, nano, rfl⟩ := he
    rw [List.replicate_succ', exec_concat]
    refine ⟨(linksValid_next hvalid _).mpr fun hs => hroom hs.1, ?_⟩
    rw [next, vec_onNew, GrowVec.capacity_emplaceBack_of_not_full hroom, hcap]

theorem links_news (hne : r.links ≠ []) {e : TopEvent}
    (he : ∃ dir px orderRef nano, e = .onNew dir px orderRef nano) (k : Nat) :
    (r.exec grow (List.replicate k e)).links ≠ [] := by
  obtain ⟨dir, px, orderRef, nano, rfl⟩ := he
  induction k with
  | zero => exact hne
  | succ k ih =>
    obtain ⟨l, hl⟩ := List.exists_mem_of_ne_nil _ ih
    rw [List.replicate_succ', exec_concat, next]
    exact List.ne_nil_of_mem (mem_links_onNew.mpr (.inl hl))

/-- One order too many leaves the linked nodes behind. -/
theorem not_linksValid_news (hr : r.LinksValid) (hne : r.links ≠ []) {e : TopEvent}
    (he : ∃ dir px orderRef nano, e = .onNew dir px orderRef nano) {k : Nat}
    (hk : r.vecTreapNode.elems.length + k = r.vecTreapNode.capacity) :
    ¬(r.exec grow (List.replicate (k + 1) e)).LinksValid := by
  obtain ⟨hvalid, hcap⟩ := @linksValid_news grow r hr e he k (Nat.le_of_eq hk)
  have hlen := @length_news grow r e he k
  have hlinks := @links_news grow r hne e he k
  obtain ⟨dir, px, orderRef, nano, rfl⟩ := he
  rw [List.replicate_succ', exec_concat, linksValid_next hvalid]
  refine fun h => h ⟨?_, hlinks⟩
  rw [GrowVec.Full, hlen, hcap, hk]

/-! ## Cancels -/

/-- Cancels of one side. -/
def cancels (dir : Dir) (refs : List Int) : List TopEvent := refs.map fun ref => .onCxl { dir := dir, orderRef := ref }

theorem exec_cancels (hr : r.LinksValid) (dir : Dir) (refs : List Int) :
    (r.exec grow (cancels dir refs)).LinksValid ∧ ∀ buy n, n ∈ (r.exec grow (cancels dir refs)).nodes buy ↔
      n ∈ r.nodes buy ∧ ¬(buy = decide (dir = .buy) ∧ ∃ ref ∈ refs, n.orderRef = toInt ref) := by
  induction refs generalizing r with
  | nil => exact ⟨hr, fun buy n => by simp [cancels, exec]⟩
  | cons ref refs ih =>
    let e : TopEvent := .onCxl { dir := dir, orderRef := ref }
    have hvalid : (r.next grow e).LinksValid := (linksValid_next hr e).mpr id
    obtain ⟨hend, hnodes⟩ := ih hvalid
    refine ⟨hend, fun buy n => ?_⟩
    rw [show r.exec grow (cancels dir (ref :: refs)) = (r.next grow e).exec grow (cancels dir refs) from rfl, hnodes,
      mem_nodes_next hr]
    simp only [e, Drops, adds, List.not_mem_nil, or_false, List.exists_mem_cons_iff]
    rw [and_assoc, ← not_or, ← and_or_left]

end NatFramework.Risk.StoredTop
