import NatFramework.Td.InsertSteps
import NatFramework.Td.RestartTop

/-!
# Callbacks that overtake the insertion

The vendor's thread may deliver an order's callbacks before `req_order_insert`
has filled in its track, or before it has called `onNew`. What a schedule leads
to is compared with the insertion followed by the callbacks.

* `InTime`: what a callback must find in the track.
* `Sim`: a schedule whose callbacks are in time, beside the sequential one.
* `sameEnd_iff`: both lead to the same track and account, and to the same books
  exactly when no order is taken out of its book only before it is entered.
-/
namespace NatFramework.Td

open Lib Account Risk Engine AccBase Posting

/-! ## The writes that are left -/

section Writes

variable (x : Insertion)

/-- The track after the writes behind the first `k`. -/
def restOf (k : Nat) (t : OrderTrack) : OrderTrack :=
  ((insertWrites x.d x.unit x.id).drop k).foldl (fun t w => w t) t

/-- The fields the account reads are those of the order. -/
structure Shows (t : OrderTrack) : Prop where
  accId : t.accId = x.d.accIdx
  instrHash : t.instrHash = x.d.instrHash
  dir : t.dir = x.d.dir
  off : t.off = x.d.off
  price : t.price = x.d.price

variable {x}

theorem restOf_done {k : Nat} (h : 15 ≤ k) (t : OrderTrack) : restOf x k t = t := by
  unfold restOf
  rw [List.drop_eq_nil_of_le (by simpa [insertWrites] using h)]
  rfl

theorem restOf_step {k : Nat} {w : OrderTrack → OrderTrack}
    (hw : (insertWrites x.d x.unit x.id)[k]? = some w) (t : OrderTrack) :
    restOf x k t = restOf x (k + 1) (w t) := by
  obtain ⟨hlt, rfl⟩ := List.getElem?_eq_some_iff.mp hw
  unfold restOf
  rw [List.drop_eq_getElem_cons hlt, List.foldl_cons]

theorem mem_drop_of_le {α : Type} {n k : Nat} (hk : n ≤ k) {l : List α} {a : α} (h : a ∈ l.drop k) :
    a ∈ l.drop n := by
  rw [← Nat.add_sub_cancel' hk, ← List.drop_drop] at h
  exact List.mem_of_mem_drop h

/-- What every write behind the first `n` commutes with. -/
theorem restOf_comm {n k : Nat} (hk : n ≤ k) {f : OrderTrack → OrderTrack}
    (hf : ∀ w ∈ (insertWrites x.d x.unit x.id).drop n, ∀ t, w (f t) = f (w t)) (t : OrderTrack) :
    restOf x k (f t) = f (restOf x k t) := by
  have hsub : ∀ w ∈ (insertWrites x.d x.unit x.id).drop k, ∀ t, w (f t) = f (w t) :=
    fun w hw => hf w (mem_drop_of_le hk hw)
  unfold restOf
  generalize (insertWrites x.d x.unit x.id).drop k = ws at hsub ⊢
  induction ws generalizing t with
  | nil => rfl
  | cons w ws ih =>
    rw [List.foldl_cons, List.foldl_cons, hsub w List.mem_cons_self]
    exact ih (w t) fun w' hw' => hsub w' (List.mem_cons_of_mem w hw')

/-- What every write behind the first `n` keeps. -/
theorem restOf_keeps {n k : Nat} (hk : n ≤ k) {P : OrderTrack → Prop}
    (hP : ∀ w ∈ (insertWrites x.d x.unit x.id).drop n, ∀ t, P t → P (w t)) {t : OrderTrack}
    (ht : P t) : P (restOf x k t) := by
  have hsub : ∀ w ∈ (insertWrites x.d x.unit x.id).drop k, ∀ t, P t → P (w t) :=
    fun w hw => hP w (mem_drop_of_le hk hw)
  unfold restOf
  generalize (insertWrites x.d x.unit x.id).drop k = ws at hsub
  induction ws generalizing t with
  | nil => exact ht
  | cons w ws ih =>
    exact ih (hsub w List.mem_cons_self t ht) fun w' hw' => hsub w' (List.mem_cons_of_mem w hw')

/-- `vol_traded` is the eighth field written. -/
theorem volTraded_restOf {k : Nat} (hk : 8 ≤ k) (t : OrderTrack) :
    (restOf x k t).volTraded = t.volTraded := by
  refine restOf_keeps (P := fun t' => t'.volTraded = t.volTraded) hk (fun w hw t' ht => ?_) rfl
  simp only [insertWrites, List.drop_succ_cons, List.drop_zero, List.mem_cons, List.not_mem_nil,
    or_false] at hw
  rcases hw with rfl | rfl | rfl | rfl | rfl | rfl | rfl <;> exact ht

/-- The status is the first field written. -/
theorem restOf_track {k : Nat} {o : Outcome} (hk : o ≠ .nothing → 1 ≤ k)
    (h8 : ∀ v px, o = .fills v px → 8 ≤ k) (t : OrderTrack) :
    restOf x k (o.track t) = o.track (restOf x k t) := by
  have hbits : ∀ bits : Status, 1 ≤ k →
      restOf x k { t with status := t.status ||| bits } =
        { restOf x k t with status := (restOf x k t).status ||| bits } := by
    intro bits h1
    refine restOf_comm (f := fun t => { t with status := t.status ||| bits }) h1 (fun w hw t => ?_) t
    simp only [insertWrites, List.drop_succ_cons, List.drop_zero, List.mem_cons, List.not_mem_nil,
      or_false] at hw
    rcases hw with rfl | rfl | rfl | rfl | rfl | rfl | rfl | rfl | rfl | rfl | rfl | rfl | rfl | rfl <;>
      rfl
  cases o with
  | nothing => rfl
  | marks bits => exact hbits bits (hk (by simp))
  | closes type vol => exact hbits (ods type) (hk (by simp))
  | fills v px =>
    refine restOf_comm (f := filled v px) (h8 v px rfl) (fun w hw t => ?_) t
    simp only [insertWrites, List.drop_succ_cons, List.drop_zero, List.mem_cons, List.not_mem_nil,
      or_false] at hw
    unfold filled
    rcases hw with rfl | rfl | rfl | rfl | rfl | rfl | rfl <;> dsimp only <;> split <;> rfl

end Writes

/-! ## Two accounts -/

/-- Two accounts from one start: the second has booked `l'` besides what the
first has, and both have seen the same last prices. -/
def Ahead (info : TradeBaseInfo) (a0 : AccBase) (l' : List Posting) (a b : AccBase) : Prop :=
  ∃ l, (∀ h i, info.find h = some i → Touched h l) ∧ Booked info a0 l a ∧
    Booked info a0 (l ++ l') b ∧
    ∀ h i, info.find h = some i →
      (a.booksAt h i).instr.unitPx.lastPx = (b.booksAt h i).instr.unitPx.lastPx

/-- An event whose new last price is a function of the old. -/
def Prices (f : Books → Books) (g : ℚ → ℚ) : Prop :=
  ∀ b, (f b).instr.unitPx.lastPx = g b.instr.unitPx.lastPx

section Ahead

variable {info : TradeBaseInfo} {a0 a b : AccBase} {l l' : List Posting} {f : Books → Books} {g : ℚ → ℚ}

theorem lastPx_onInstr (hv : info.VolMultiplesOk) (hl : Linked info a) (hf : Prices f g) (h' : Hash)
    {h : Hash} {i : InstrumentInfo} (hi : info.find h = some i) :
    ((a.onInstr info h' f).booksAt h i).instr.unitPx.lastPx =
      if h' = h then g (a.booksAt h i).instr.unitPx.lastPx
      else (a.booksAt h i).instr.unitPx.lastPx := by
  rw [instr_onInstr hv hl h' f hi]
  split
  · exact hf _
  · rfl

/-- A posting of nothing to an instrument that has postings. -/
theorem Booked.drop_zero {h : Hash} (hb : Booked info a0 (l ++ [(h, 0)] ++ l') a)
    (ht : ∀ h i, info.find h = some i → Touched h l) : Booked info a0 (l ++ l') a := by
  refine hb.congr (fun h' i hi => ?_) (fun h' i hi => ?_) ?_
  · rw [sumAt_append, sumAt_append, sumAt_append, sumAt_single, ite_self, add_zero]
  · exact iff_of_true (touched_append.mpr (Or.inl (touched_append.mpr (Or.inl (ht h' i hi)))))
      (touched_append.mpr (Or.inl (ht h' i hi)))
  · rw [unfilled_append, unfilled_append, unfilled_append, unfilled_single, Effect.zero_unfilled,
      add_zero]

/-- An event without an effect on the first account. -/
theorem Ahead.quiet_left (hv : info.VolMultiplesOk) (hab : Ahead info a0 l' a b)
    (hd : ∀ vm, Does vm f 0) (hf : Prices f id) (h : Hash) :
    Ahead info a0 l' (a.onInstr info h f) b := by
  obtain ⟨l, ht, ha, hb, hpx⟩ := hab
  refine ⟨l, ht, ?_, hb, fun h' i hi => ?_⟩
  · have := ha.onInstr hv h (fun _ => 0) hd
    rw [show ((info.find h).elim 0 fun _ => (0 : Effect)) = 0 by cases info.find h <;> rfl] at this
    have h0 : Booked info a0 (l ++ []) (a.onInstr info h f) :=
      Booked.drop_zero (by simpa using this) ht
    simpa using h0
  · rw [lastPx_onInstr hv ha.linked hf h hi, id, ite_self]
    exact hpx h' i hi

theorem Ahead.quiet_right (hv : info.VolMultiplesOk) (hab : Ahead info a0 l' a b)
    (hd : ∀ vm, Does vm f 0) (hf : Prices f id) (h : Hash) :
    Ahead info a0 l' a (b.onInstr info h f) := by
  obtain ⟨l, ht, ha, hb, hpx⟩ := hab
  refine ⟨l, ht, ha, ?_, fun h' i hi => ?_⟩
  · have := hb.onInstr hv h (fun _ => 0) hd
    rw [show ((info.find h).elim 0 fun _ => (0 : Effect)) = 0 by cases info.find h <;> rfl] at this
    have hmove : Posting.Equiv (l ++ l' ++ [(h, 0)]) (l ++ [(h, 0)] ++ l') := by
      rw [List.append_assoc, List.append_assoc]
      exact Posting.Equiv.of_perm (List.Perm.append_left l List.perm_append_comm)
    exact Booked.drop_zero (this.equiv hmove) ht
  · rw [lastPx_onInstr hv hb.linked hf h hi, id, ite_self]
    exact hpx h' i hi

/-- The same event on both. -/
theorem Ahead.both (hv : info.VolMultiplesOk) (hab : Ahead info a0 l' a b) {e : Int → Effect}
    (hd : ∀ vm, Does vm f (e vm)) (hf : Prices f g) (h : Hash) :
    Ahead info a0 l' (a.onInstr info h f) (b.onInstr info h f) := by
  obtain ⟨l, ht, ha, hb, hpx⟩ := hab
  refine ⟨_, fun h' i hi => touched_append.mpr (Or.inl (ht h' i hi)), ha.onInstr hv h e hd, ?_,
    fun h' i hi => ?_⟩
  · refine (hb.onInstr hv h e hd).equiv ?_
    rw [List.append_assoc, List.append_assoc]
    exact Posting.Equiv.of_perm (List.Perm.append_left l List.perm_append_comm)
  · rw [lastPx_onInstr hv ha.linked hf h hi, lastPx_onInstr hv hb.linked hf h hi, hpx h' i hi]

/-- The first account catches up. -/
theorem Ahead.catch (hv : info.VolMultiplesOk) {h : Hash} {e : Int → Effect}
    (hab : Ahead info a0 [(h, (info.find h).elim 0 fun i => e i.volMultiple)] a b)
    (hd : ∀ vm, Does vm f (e vm)) (hf : Prices f id) : Ahead info a0 [] (a.onInstr info h f) b := by
  obtain ⟨l, ht, ha, hb, hpx⟩ := hab
  refine ⟨_, fun h' i hi => touched_append.mpr (Or.inl (ht h' i hi)), ha.onInstr hv h e hd, ?_,
    fun h' i hi => ?_⟩
  · rwa [List.append_nil]
  · rw [lastPx_onInstr hv ha.linked hf h hi, id, ite_self]
    exact hpx h' i hi

theorem Ahead.same (hab : Ahead info a0 [] a b) : AccBase.Same a b := by
  obtain ⟨l, -, ha, hb, hpx⟩ := hab
  rw [List.append_nil] at hb
  exact ha.same hb fun h i hi _ => hpx h i hi

theorem touched_reg {h : Hash} {i : InstrumentInfo} (hi : info.find h = some i) :
    Touched h (regPostings info) := by
  simpa using touched_regPostings hi []

/-- An account in which every known instrument is registered. -/
theorem booked_registered (hl : Linked info a0)
    (hr : ∀ h i, info.find h = some i → (a0.mapInstr.find h).isSome = true) :
    Booked info a0 (regPostings info) a0 where
  toSibling := (Booked.start hl).toSibling
  instr h i _ := by
    have h0 : sumAt h (regPostings info) = 0 := by
      have := sumAt_regPostings info h []
      rwa [List.nil_append] at this
    rw [h0]
    exact Moved.refl _
  instrSome h i hi _ := hr h i hi
  instrKept _ _ := rfl
  prdSome h i hi _ := by
    obtain ⟨m, hm⟩ := Option.isSome_iff_exists.mp (hr h i hi)
    obtain ⟨i', p, he⟩ := hl.instr h m hm
    obtain rfl : i = i' := by
      have := he.known
      rw [hi] at this
      exact Option.some.inj this
    have hp := he.attached_iff.mp (hl.attached h m hm)
    have hlive := he.live (by rw [hp]; rfl)
    rwa [he.key] at hlive
  prdKept _ _ := rfl
  unfilled := by
    have h0 : Posting.unfilled (regPostings info) = 0 := by
      have := unfilled_regPostings info []
      rw [List.nil_append] at this
      rw [this]
      rfl
    rw [h0, add_zero]

end Ahead

/-! ## What the accounts make of a callback -/

section Messages

variable {τ : Type} {O : Treap τ} {info : TradeBaseInfo} {us vs : Int → RiskTop τ} {t t' : OrderTrack}
  {r r' : RtnMsg}

theorem prices_rtn (t : OrderTrack) (r : RtnMsg) :
    Prices (rtnBooks t r) fun px => if r.msgType.has .execution then r.price else px := by
  intro b
  unfold rtnBooks
  dsimp only
  split
  · rw [Books.onTrd_eq]
    simp [Books.onTickPx_eq]
  · split <;> simp [Books.onCxl_eq]

theorem prices_onNew (dir : Dir) (off : Off) (px : ℚ) (vol : Int) :
    Prices (fun b => b.onNew dir off px vol) id := fun b => by simp [Books.onNew_eq]

/-- The account takes no notice of the message. -/
theorem quiet_rtn (hr : Unbooked r.msgType) :
    (∀ vm, Does vm (rtnBooks t r) 0) ∧ Prices (rtnBooks t r) id := by
  obtain ⟨h1, -, h3⟩ := hr
  constructor
  · intro vm
    have h := does_rtn vm t r
    simpa [rtnEffect, h1, h3] using h
  · intro b
    rw [prices_rtn t r b, h3]
    rfl

theorem not_execution_of_closed {type : OrderRtnType} (hc : Status.has (ods type) .closed = true) :
    Status.has (ods type) .execution = false := by
  rcases (ods_closed_iff type).mp hc with rfl | rfl | rfl | rfl | rfl <;> decide

theorem rtnBooks_congr (hd : t.dir = t'.dir) (ho : t.off = t'.off) (hp : t.price = t'.price)
    (htype : r.msgType = r'.msgType) (hvol : r.vol = r'.vol)
    (hx : r.msgType.has .execution = true →
      t.vol = t'.vol ∧ t.volTraded = t'.volTraded ∧ r.price = r'.price) :
    rtnBooks t r = rtnBooks t' r' := by
  funext b
  unfold rtnBooks
  rw [← htype, hd, ho, hp, hvol]
  by_cases he : r.msgType.has .execution = true
  · obtain ⟨h1, h2, h3⟩ := hx he
    rw [h1, h2, h3]
  · simp only [he, Bool.false_eq_true, if_false]

theorem accBase_deliver_one (m : Passed) (us : Int → RiskTop τ) (k : Int) :
    (Inserting.deliver O info [m] us k).accBase =
      if k = m.accIdx then (us k).accBase.onInstr info m.track.instrHash (rtnBooks m.track m.msg)
      else (us k).accBase := by
  unfold Inserting.deliver
  rw [List.foldl_cons, List.foldl_nil, Function.update_apply]
  split
  · rename_i hk
    rw [(Running.onRtn_layers _ _ _ _ _).1, hk]
    rfl
  · rfl

theorem deliver_cons (m : Passed) (ms : List Passed) (us : Int → RiskTop τ) :
    Inserting.deliver O info (m :: ms) us =
      Inserting.deliver O info ms (Inserting.deliver O info [m] us) := rfl

theorem ahead_deliver_left (hv : info.VolMultiplesOk) {a0 b : AccBase} {l' : List Posting} {k : Int}
    {ms : List Passed} (hms : ∀ m ∈ ms, Unbooked m.msg.msgType)
    (h : Ahead info a0 l' (us k).accBase b) :
    Ahead info a0 l' (Inserting.deliver O info ms us k).accBase b := by
  induction ms generalizing us with
  | nil => exact h
  | cons m ms ih =>
    rw [deliver_cons]
    refine ih (fun m' hm' => hms m' (List.mem_cons_of_mem m hm')) ?_
    rw [accBase_deliver_one]
    obtain ⟨hd, hp⟩ := quiet_rtn (t := m.track) (hms m List.mem_cons_self)
    split
    · exact h.quiet_left hv hd hp _
    · exact h

theorem ahead_deliver_right (hv : info.VolMultiplesOk) {a0 a : AccBase} {l' : List Posting} {k : Int}
    {ms : List Passed} (hms : ∀ m ∈ ms, Unbooked m.msg.msgType)
    (h : Ahead info a0 l' a (vs k).accBase) :
    Ahead info a0 l' a (Inserting.deliver O info ms vs k).accBase := by
  induction ms generalizing vs with
  | nil => exact h
  | cons m ms ih =>
    rw [deliver_cons]
    refine ih (fun m' hm' => hms m' (List.mem_cons_of_mem m hm')) ?_
    rw [accBase_deliver_one]
    obtain ⟨hd, hp⟩ := quiet_rtn (t := m.track) (hms m List.mem_cons_self)
    split
    · exact h.quiet_right hv hd hp _
    · exact h

/-- A message both accounts book alike. -/
theorem ahead_deliver_both (hv : info.VolMultiplesOk) {a0 : AccBase} {l' : List Posting} {k i : Int}
    (hh : t.instrHash = t'.instrHash) (hb : rtnBooks t r = rtnBooks t' r')
    (h : Ahead info a0 l' (us k).accBase (vs k).accBase) :
    Ahead info a0 l' (Inserting.deliver O info [⟨i, t, r⟩] us k).accBase
      (Inserting.deliver O info [⟨i, t', r'⟩] vs k).accBase := by
  rw [accBase_deliver_one, accBase_deliver_one]
  dsimp only
  split
  · rw [hh, hb]
    exact h.both hv (fun vm => does_rtn vm t' r') (prices_rtn t' r') _
  · exact h

/-- What one callback does to the accounts: `t` and `t'` are the tracks it leaves. -/
theorem ahead_passes (hv : info.VolMultiplesOk) {x : Insertion} {o : Outcome} {a0 : AccBase}
    {l' : List Posting} {k : Int} {ms ms' : List Passed} (hms : o.Passes t ms) (hms' : o.Passes t' ms')
    (hs : o.booked = true → Shows x t ∧ Shows x t')
    (hf : ∀ v px, o = .fills v px → t.vol = t'.vol ∧ t.volTraded = t'.volTraded)
    (h : Ahead info a0 l' (us k).accBase (vs k).accBase) :
    Ahead info a0 l' (Inserting.deliver O info ms us k).accBase
      (Inserting.deliver O info ms' vs k).accBase := by
  cases o with
  | nothing => exact ahead_deliver_right hv hms' (ahead_deliver_left hv hms h)
  | marks => exact ahead_deliver_right hv hms' (ahead_deliver_left hv hms h)
  | closes type vol =>
    obtain ⟨h1, h2⟩ := hs rfl
    obtain ⟨hc, r, rfl, hr, hrv⟩ := hms
    obtain ⟨-, r', rfl, hr', hrv'⟩ := hms'
    rw [h1.accId, h2.accId]
    refine ahead_deliver_both hv (h1.instrHash.trans h2.instrHash.symm) ?_ h
    refine rtnBooks_congr (h1.dir.trans h2.dir.symm) (h1.off.trans h2.off.symm)
      (h1.price.trans h2.price.symm) (hr.trans hr'.symm) (hrv.trans hrv'.symm) fun hx => ?_
    rw [hr, not_execution_of_closed hc] at hx
    cases hx
  | fills v px =>
    obtain ⟨h1, h2⟩ := hs rfl
    obtain ⟨h3, h4⟩ := hf v px rfl
    obtain ⟨r, rfl, hr, hrv, hrp⟩ := hms
    obtain ⟨r', rfl, hr', hrv', hrp'⟩ := hms'
    rw [h1.accId, h2.accId]
    refine ahead_deliver_both hv (h1.instrHash.trans h2.instrHash.symm) ?_ h
    exact rtnBooks_congr (h1.dir.trans h2.dir.symm) (h1.off.trans h2.off.symm)
      (h1.price.trans h2.price.symm) (hr.trans hr'.symm) (hrv.trans hrv'.symm)
      fun _ => ⟨h3, h4, hrp.trans hrp'.symm⟩

end Messages

/-! ## What the treaps make of a callback -/

/-- The callback takes the order out of its book. -/
def Outcome.leaves (t : OrderTrack) : Outcome → Prop
  | nothing | marks _ => False
  | closes _ _ => True
  | fills volume _ => t.volTraded + volume = t.vol

section Sides

variable {τ : Type} {O : Treap τ} {info : TradeBaseInfo} {us : Int → RiskTop τ} {t : OrderTrack}

theorem side_onRtn_unbooked {s : RiskTop τ} {r : RtnMsg} (hr : Unbooked r.msgType) (h : Hash)
    (buy : Bool) : RiskTop.side O h buy (s.onRtn O info t r) = RiskTop.side O h buy s := by
  obtain ⟨-, h2, h3⟩ := hr
  unfold RiskTop.onRtn
  dsimp only
  rw [h2, h3]
  rfl

theorem side_deliver_unbooked {ms : List Passed} (hms : ∀ m ∈ ms, Unbooked m.msg.msgType) (k : Int)
    (h : Hash) (buy : Bool) :
    RiskTop.side O h buy (Inserting.deliver O info ms us k) = RiskTop.side O h buy (us k) := by
  induction ms generalizing us with
  | nil => rfl
  | cons m ms ih =>
    rw [deliver_cons, ih fun m' hm' => hms m' (List.mem_cons_of_mem m hm')]
    unfold Inserting.deliver
    rw [List.foldl_cons, List.foldl_nil, Function.update_apply]
    split
    · rename_i hk
      rw [side_onRtn_unbooked (hms m List.mem_cons_self), hk]
    · rfl

theorem mem_side_deliver_one (hO : O.Lawful) (i : Int) (r : RtnMsg) (k : Int) (h : Hash) (buy : Bool)
    (n : TreapNode) :
    O.mem n (RiskTop.side O h buy (Inserting.deliver O info [⟨i, t, r⟩] us k)) ↔
      O.mem n (RiskTop.side O h buy (us k)) ∧ ¬(k = i ∧ h = t.instrHash ∧
        buy = decide (t.dir = .buy) ∧ RiskTop.Leaves t r ∧ n.orderRef = toInt t.orderRef) := by
  unfold Inserting.deliver
  rw [List.foldl_cons, List.foldl_nil, Function.update_apply]
  dsimp only
  split
  · rename_i hk
    subst hk
    by_cases hh : h = t.instrHash
    · rw [RiskTop.mem_side_onRtn hO hh.symm]
      simp [hh]
    · rw [Running.side_onRtn_of_ne (Ne.symm hh)]
      simp [hh]
  · rename_i hk
    simp [hk]

/-- A callback erases the order's reference from its side of its book, if it
takes the order out. `t` is the track it finds. -/
theorem mem_side_passes (info : TradeBaseInfo) (hO : O.Lawful) (us : Int → RiskTop τ) {x : Insertion} {o : Outcome} {ms : List Passed}
    (hms : o.Passes (o.track t) ms) (hs : o.booked = true → Shows x (o.track t)) (k : Int) (h : Hash)
    (buy : Bool) (n : TreapNode) :
    O.mem n (RiskTop.side O h buy (Inserting.deliver O info ms us k)) ↔
      O.mem n (RiskTop.side O h buy (us k)) ∧ ¬(k = x.d.accIdx ∧ h = x.d.instrHash ∧
        buy = decide (x.d.dir = .buy) ∧ o.leaves t ∧ n.orderRef = toInt t.orderRef) := by
  cases o with
  | nothing =>
    rw [side_deliver_unbooked hms]
    simp [Outcome.leaves]
  | marks =>
    rw [side_deliver_unbooked hms]
    simp [Outcome.leaves]
  | closes type vol =>
    obtain ⟨hc, r, rfl, hr, -⟩ := hms
    obtain ⟨h1, h2, h3, -, -⟩ := hs rfl
    have hleaves : RiskTop.Leaves ((Outcome.closes type vol).track t) r := by
      refine Or.inl ?_
      rw [hr, Status.has_canceled (Status.fromTypes_ods type)]
      exact hc
    rw [mem_side_deliver_one hO, h1, h2, h3, iff_true_intro hleaves]
    rfl
  | fills v px =>
    obtain ⟨r, rfl, hr, -, -⟩ := hms
    obtain ⟨h1, h2, h3, -, -⟩ := hs rfl
    have hleaves : RiskTop.Leaves ((Outcome.fills v px).track t) r ↔ t.volTraded + v = t.vol := by
      have hc : Status.has (ods .execution) .canceled = false := by decide
      have hx : Status.has (ods .execution) .execution = true := by decide
      have hvol : (filled v px t).vol = t.vol := by
        unfold filled
        dsimp only
        split <;> rfl
      unfold RiskTop.Leaves
      rw [hr, hc, hx, Outcome.track, filled_volTraded, hvol]
      simp
    have href : ((Outcome.fills v px).track t).orderRef = t.orderRef := by
      unfold Outcome.track filled
      dsimp only
      split <;> rfl
    rw [mem_side_deliver_one hO, h1, h2, h3, hleaves, href]
    rfl

end Sides

/-! ## A schedule beside the sequential one -/

/-- The engine once the track is filled in. -/
def Inserting.filledIn {τ : Type} (x : Insertion) (s : Inserting τ) : Engine :=
  s.engine.setRequestTrack x.id (restOf x s.pc (s.track x))

/-- What a callback must find. It does what it would do once the track is filled
in; unless that is nothing, the status has been written; if the account books its
message, the track shows the order, for a fill also its volume, with `vol_traded`
written; and it does not erase another order from a book. -/
structure InTime {τ : Type} (O : Treap τ) (x : Insertion) (s : Inserting τ) (c : CtpCallback) :
    Prop where
  same : c.outcome x.id s.engine = c.outcome x.id (s.filledIn x)
  status : c.outcome x.id s.engine ≠ .nothing → 1 ≤ s.pc
  shows : (c.outcome x.id s.engine).booked = true → Shows x (s.track x)
  fills : ∀ v px, c.outcome x.id s.engine = .fills v px → (s.track x).vol = x.d.vol ∧ 8 ≤ s.pc
  ref : (c.outcome x.id s.engine).booked = true → s.pc < Inserting.size → ∀ buy n,
    O.mem n (RiskTop.side O x.d.instrHash buy (s.utilis x.d.accIdx)) →
      n.orderRef ≠ toInt (s.track x).orderRef

/-- What `onNew` posts. -/
def newPosting (info : TradeBaseInfo) (x : Insertion) : Posting :=
  (x.d.instrHash, (info.find x.d.instrHash).elim 0
    fun i => .new i.volMultiple x.d.dir x.d.off x.d.price x.d.vol)

/-- A state `s` of a schedule and the state `v` after the insertion and the same
callbacks: the steps left would turn the one into the other. -/
structure Sim {τ : Type} (info : TradeBaseInfo) (x : Insertion) (s0 s v : Inserting τ) : Prop where
  track : restOf x s.pc (s.track x) = v.track x
  shows : Shows x (v.track x)
  vol : (v.track x).vol = x.d.vol
  ref : (v.track x).orderRef = x.id
  filter : s.engine.otidfilter = v.engine.otidfilter
  user : s.engine.intUserId = v.engine.intUserId
  range : s.engine.checkRequestId = v.engine.checkRequestId
  idle : s.engine.Idle
  idle' : v.engine.Idle
  account : ∀ k, Ahead info (s0.utilis k).accBase
    (if s.pc < Inserting.size ∧ k = x.d.accIdx then [newPosting info x] else [])
    (s.utilis k).accBase (v.utilis k).accBase

namespace Inserting

variable {τ : Type} {O : Treap τ} {info : TradeBaseInfo} {x : Insertion} {s0 s v : Inserting τ}
  {c : CtpCallback}

/-! ### Callbacks -/

theorem outcome_congr {id : Int} {e e' : Engine} (ht : e.getRequestTrack id = e'.getRequestTrack id)
    (hu : e.intUserId = e'.intUserId) (hr : e.checkRequestId = e'.checkRequestId)
    (hf : e.otidfilter = e'.otidfilter) (c : CtpCallback) : c.outcome id e = c.outcome id e' := by
  have hchk : e.chkUserId = e'.chkUserId := by
    funext userId
    unfold Engine.chkUserId
    rw [hu]
  have hrem : e.remembered id = e'.remembered id := by
    unfold Engine.remembered
    rw [hf]
  unfold CtpCallback.outcome
  rw [ht, hchk, hr, hrem]

theorem filter_congr {e e' : Engine} (hu : e.intUserId = e'.intUserId)
    (hr : e.checkRequestId = e'.checkRequestId) (hf : e.otidfilter = e'.otidfilter) (c : CtpCallback) :
    c.filter e = c.filter e' := by
  have hchk : e.chkUserId = e'.chkUserId := by
    funext userId
    unfold Engine.chkUserId
    rw [hu]
  unfold CtpCallback.filter Engine.testOtId
  rw [hchk, hr, hf]

theorem track_fields (o : Outcome) (t : OrderTrack) :
    (Shows x t → Shows x (o.track t)) ∧ (o.track t).vol = t.vol ∧
      (o.track t).orderRef = t.orderRef := by
  cases o with
  | nothing => exact ⟨id, rfl, rfl⟩
  | marks => exact ⟨fun ⟨h1, h2, h3, h4, h5⟩ => ⟨h1, h2, h3, h4, h5⟩, rfl, rfl⟩
  | closes => exact ⟨fun ⟨h1, h2, h3, h4, h5⟩ => ⟨h1, h2, h3, h4, h5⟩, rfl, rfl⟩
  | fills v px =>
    unfold Outcome.track filled
    dsimp only
    split <;> exact ⟨fun ⟨h1, h2, h3, h4, h5⟩ => ⟨h1, h2, h3, h4, h5⟩, rfl, rfl⟩

theorem outcome_eq (hs : Sim info x s0 s v) (hin : InTime O x s c) :
    c.outcome x.id s.engine = c.outcome x.id v.engine := by
  have ht : (s.filledIn x).getRequestTrack x.id = v.engine.getRequestTrack x.id := by
    unfold filledIn
    rw [getRequestTrack_set]
    exact hs.track
  have hu : (s.filledIn x).intUserId = v.engine.intUserId := hs.user
  have hr : (s.filledIn x).checkRequestId = v.engine.checkRequestId := hs.range
  have hf : (s.filledIn x).otidfilter = v.engine.otidfilter := hs.filter
  rw [hin.same, outcome_congr ht hu hr hf]

theorem sim_called (hv : info.VolMultiplesOk) (hs : Sim info x s0 s v) (hc : c.OfOrder x.id)
    (hin : InTime O x s c) : Sim info x s0 (called O info c s) (called O info c v) := by
  have ho := outcome_eq hs hin
  have ha := answered_apply hs.idle c hc
  have ha' := answered_apply hs.idle' c hc
  rw [← ho] at ha'
  have hsame := restOf_track (x := x) hin.status (fun v px h => (hin.fills v px h).2) (s.track x)
  rw [hs.track] at hsame
  have htrack : (called O info c s).track x = (c.outcome x.id s.engine).track (s.track x) := ha.track
  have htrack' : (called O info c v).track x = (c.outcome x.id s.engine).track (v.track x) := ha'.track
  obtain ⟨h1, h2, h3⟩ := track_fields (x := x) (c.outcome x.id s.engine) (v.track x)
  refine ⟨?_, ?_, ?_, ?_, ?_, ha.user.trans (hs.user.trans ha'.user.symm),
    ha.range.trans (hs.range.trans ha'.range.symm), ha.idle, ha'.idle, fun k => ?_⟩
  · rw [htrack, htrack']
    exact hsame
  · rw [htrack']
    exact h1 hs.shows
  · rw [htrack', h2, hs.vol]
  · rw [htrack', h3, hs.ref]
  · change (c.apply s.engine).otidfilter = (c.apply v.engine).otidfilter
    rw [otidfilter_apply c hc, otidfilter_apply c hc]
    exact filter_congr hs.user hs.range hs.filter c
  · obtain ⟨ms, hp, hms⟩ := ha.passed
    obtain ⟨ms', hp', hms'⟩ := ha'.passed
    have hd : (c.apply s.engine).passed.drop s.engine.passed.length = ms := by rw [hp, List.drop_left]
    have hd' : (c.apply v.engine).passed.drop v.engine.passed.length = ms' := by
      rw [hp', List.drop_left]
    simp only [called, hd, hd']
    refine ahead_passes (x := x) hv hms hms' (fun hb => ?_) (fun w px hw => ?_) (hs.account k)
    · rw [ha.track, ha'.track]
      exact ⟨(track_fields _ _).1 (hin.shows hb), h1 hs.shows⟩
    · obtain ⟨hvol, h8⟩ := hin.fills w px hw
      have htraded := volTraded_restOf (x := x) h8 (s.track x)
      rw [hs.track] at htraded
      refine ⟨?_, ?_⟩
      · rw [ha.track, ha'.track, (track_fields (x := x) _ _).2.1, (track_fields (x := x) _ _).2.1]
        exact hvol.trans hs.vol.symm
      · rw [ha.track, ha'.track, hw, Outcome.track, Outcome.track, filled_volTraded, filled_volTraded]
        exact congrArg (· + w) htraded.symm

/-! ### Steps -/

theorem advance_write {w : OrderTrack → OrderTrack}
    (hw : (insertWrites x.d x.unit x.id)[s.pc]? = some w) :
    advance O info x s =
      { engine := s.engine.setRequestTrack x.id (w (s.track x)), utilis := s.utilis, pc := s.pc + 1 } := by
  have hstep : (steps O info x)[s.pc]? = some fun s =>
      { s with engine := s.engine.setRequestTrack x.id (w (s.track x)) } := by
    unfold steps
    rw [List.getElem?_append_left]
    · rw [List.getElem?_map, hw]
      rfl
    · rw [List.length_map]
      exact (List.getElem?_eq_some_iff.mp hw).1
  unfold advance
  rw [hstep]

theorem advance_fifteen (h : s.pc = 15) :
    advance O info x s =
      { engine := ackFill x.d x.id s.engine, utilis := s.utilis, pc := 16 } := by
  unfold advance
  rw [h]
  rfl

theorem advance_sixteen (h : s.pc = 16) :
    advance O info x s =
      { engine := s.engine.commit s.engine.writer.free, utilis := s.utilis, pc := 17 } := by
  unfold advance
  rw [h]
  rfl

theorem advance_seventeen (h : s.pc = 17) :
    advance O info x s =
      { engine := s.engine
        utilis := Function.update s.utilis x.d.accIdx
          ((s.utilis x.d.accIdx).onNew O info x.d.dir x.d.off x.d.price x.d.vol x.d.instrHash
            (s.track x).orderRef x.nano)
        pc := 18 } := by
  unfold advance
  rw [h]
  rfl

theorem advance_done (h : 18 ≤ s.pc) : advance O info x s = s := by
  unfold advance
  rw [List.getElem?_eq_none (by simpa [length_steps, size] using h)]

/-- A step that is not the call of `onNew` keeps the accounts. -/
theorem sim_engine (hs : Sim info x s0 s v) {e : Engine} {n : Nat} (hn : n < size)
    (ht : restOf x n (e.getRequestTrack x.id) = restOf x s.pc (s.track x))
    (hf : e.otidfilter = s.engine.otidfilter) (hu : e.intUserId = s.engine.intUserId)
    (hr : e.checkRequestId = s.engine.checkRequestId) (hi : e.Idle) (hpc : s.pc < size) :
    Sim info x s0 { engine := e, utilis := s.utilis, pc := n } v where
  track := ht.trans hs.track
  shows := hs.shows
  vol := hs.vol
  ref := hs.ref
  filter := hf.trans hs.filter
  user := hu.trans hs.user
  range := hr.trans hs.range
  idle := hi
  idle' := hs.idle'
  account k := by
    have h := hs.account k
    simp only [hpc, true_and] at h
    simp only [hn, true_and]
    exact h

theorem sim_advance (hv : info.VolMultiplesOk) (hs : Sim info x s0 s v) :
    Sim info x s0 (advance O info x s) v := by
  rcases Nat.lt_or_ge s.pc 15 with hlt | hge
  · obtain ⟨w, hw⟩ : ∃ w, (insertWrites x.d x.unit x.id)[s.pc]? = some w :=
      ⟨_, List.getElem?_eq_getElem (by simpa [insertWrites] using hlt)⟩
    rw [advance_write hw]
    refine sim_engine hs (by unfold size; omega) ?_ rfl rfl rfl hs.idle (by unfold size; omega)
    rw [getRequestTrack_set, restOf_step hw]
  · rcases Nat.lt_or_ge s.pc 18 with hlt | hdone
    · have hcases : s.pc = 15 ∨ s.pc = 16 ∨ s.pc = 17 := by omega
      rcases hcases with h | h | h
      · rw [advance_fifteen h]
        refine sim_engine hs (by decide) ?_ rfl rfl rfl (Or.inr rfl) (by rw [h]; decide)
        rw [restOf_done (by omega), restOf_done (by omega)]
        rfl
      · rw [advance_sixteen h]
        refine sim_engine hs (by decide) ?_ rfl rfl rfl (Or.inl rfl) (by rw [h]; decide)
        rw [restOf_done (by omega), restOf_done (by omega)]
        rfl
      · rw [advance_seventeen h]
        refine { hs with track := ?_, account := fun k => ?_ }
        · have ht := hs.track
          rw [restOf_done (by omega)] at ht
          exact (restOf_done (k := 18) (by decide) _).trans ht
        · have ha := hs.account k
          have hno : ¬(18 < size ∧ k = x.d.accIdx) := fun hx => absurd hx.1 (by decide)
          have hyes : s.pc < size := by rw [h]; decide
          dsimp only
          rw [if_neg hno, Function.update_apply]
          by_cases hk : k = x.d.accIdx
          · rw [if_pos ⟨hyes, hk⟩] at ha
            rw [if_pos hk, ← hk]
            exact ha.catch hv (fun vm => does_onNew vm ..) (prices_onNew _ _ _ _)
          · rw [if_neg fun hx => hk hx.2] at ha
            rwa [if_neg hk]
    · rw [advance_done hdone]
      exact hs

/-! ### From the start -/

variable (O info x s) in
/-- Before the writes: the risk accounts know every instrument, and the orders in
their books have smaller ids. -/
structure Ready : Prop where
  pc : s.pc = 0
  idle : s.engine.Idle
  linked : ∀ k, Linked info (s.utilis k).accBase
  registered : ∀ k h i, info.find h = some i →
    ((s.utilis k).accBase.mapInstr.find h).isSome = true
  keys : ∀ k h buy n, O.mem n (RiskTop.side O h buy (s.utilis k)) → n.orderRef < toInt x.id

theorem getRequestTrack_ack (d : IOInputOrderField) (id : Int) (e : Engine) (p : IOOrderRtn) :
    ((ackFill d id e).commit p).getRequestTrack id = e.getRequestTrack id := rfl

theorem exec_all (h : s.pc = 0) :
    (sys O info x).exec s (List.replicate size .step) =
      { engine :=
          (ackFill x.d x.id (s.filledIn x)).commit (ackFill x.d x.id (s.filledIn x)).writer.free
        utilis := Function.update s.utilis x.d.accIdx
          ((s.utilis x.d.accIdx).onNew O info x.d.dir x.d.off x.d.price x.d.vol x.d.instrHash
            x.id x.nano)
        pc := size } := by
  obtain ⟨e, us, pc⟩ := s
  dsimp only at h
  subst h
  rw [exec_steps]
  simp only [steps, insertWrites, size, List.map_cons, List.map_nil, List.cons_append,
    List.nil_append, List.drop_zero, List.take_succ_cons, List.take_zero, List.foldl_cons,
    List.foldl_nil, track, setRequestTrack_set, getRequestTrack_ack, getRequestTrack_set, filledIn,
    restOf]

theorem shows_written (t : OrderTrack) :
    Shows x (restOf x 0 t) ∧ (restOf x 0 t).vol = x.d.vol ∧ (restOf x 0 t).orderRef = x.id :=
  ⟨⟨rfl, rfl, rfl, rfl, rfl⟩, rfl, rfl⟩

theorem sim_start (hv : info.VolMultiplesOk) (h0 : Ready O info x s0) :
    Sim info x s0 s0 ((sys O info x).exec s0 (List.replicate size .step)) := by
  rw [exec_all h0.pc]
  have hlt : s0.pc < size := by rw [h0.pc]; decide
  have htrack : (Engine.getRequestTrack ((ackFill x.d x.id (s0.filledIn x)).commit
      (ackFill x.d x.id (s0.filledIn x)).writer.free) x.id) = restOf x 0 (s0.track x) := by
    unfold filledIn
    rw [getRequestTrack_ack, getRequestTrack_set, h0.pc]
  obtain ⟨h1, h2, h3⟩ := shows_written (x := x) (s0.track x)
  rw [← htrack] at h1 h2 h3
  refine ⟨?_, h1, h2, h3, rfl, rfl, rfl, h0.idle, Or.inl rfl, fun k => ?_⟩
  · rw [h0.pc]
    exact htrack.symm
  · have hb := booked_registered (h0.linked k) (h0.registered k)
    dsimp only
    rw [Function.update_apply]
    by_cases hk : k = x.d.accIdx
    · rw [if_pos ⟨hlt, hk⟩, if_pos hk]
      subst hk
      refine ⟨_, fun h i hi => touched_reg hi, hb,
        hb.onInstr hv _ _ fun vm => does_onNew vm x.d.dir x.d.off x.d.price x.d.vol, fun h i hi => ?_⟩
      have hpx := lastPx_onInstr hv hb.linked (prices_onNew x.d.dir x.d.off x.d.price x.d.vol)
        x.d.instrHash hi
      rw [id, ite_self] at hpx
      exact hpx.symm
    · rw [if_neg fun hx => hk hx.2, if_neg hk]
      exact ⟨_, fun h i hi => touched_reg hi, hb, by rwa [List.append_nil], fun h i hi => rfl⟩

/-! ### The books -/

variable (O info x s) in
/-- The callback takes the order out of its book. -/
def TakesOut (c : CtpCallback) : Prop := (c.outcome x.id s.engine).leaves (s.track x)

end Inserting

/-- The order's node, and where it belongs. -/
def Insertion.Own (x : Insertion) (k : Int) (h : Hash) (buy : Bool) (n : TreapNode) : Prop :=
  k = x.d.accIdx ∧ h = x.d.instrHash ∧ buy = decide (x.d.dir = .buy) ∧
    n = { orderRef := toInt x.id, price := x.d.price, dir := x.d.dir }

namespace Inserting

variable {τ : Type} {O : Treap τ} {info : TradeBaseInfo} {x : Insertion} {s0 s v : Inserting τ}
  {c : CtpCallback} {left : Prop}

/-- Besides the orders of the start the books hold the order itself, from `onNew`
on and until it is taken out. -/
def BooksAre (O : Treap τ) (x : Insertion) (s0 : Inserting τ) (left : Prop) (s : Inserting τ) : Prop :=
  ∀ k h buy n, O.mem n (RiskTop.side O h buy (s.utilis k)) ↔
    O.mem n (RiskTop.side O h buy (s0.utilis k)) ∨ s.pc = size ∧ ¬left ∧ x.Own k h buy n

theorem BooksAre.congr {right : Prop} (hb : BooksAre O x s0 left s) (h : left ↔ right) :
    BooksAre O x s0 right s := propext h ▸ hb

/-- Once the order has been entered. -/
theorem booksAre_called (hO : O.Lawful) (h0 : Ready O info x s0) (hb : BooksAre O x s0 left s)
    (hpc : s.pc = size) (hi : s.engine.Idle) (hshows : Shows x (s.track x))
    (href : (s.track x).orderRef = x.id) (hc : c.OfOrder x.id) :
    BooksAre O x s0 (left ∨ TakesOut x s c) (called O info c s) := by
  have ha := answered_apply hi c hc
  obtain ⟨ms, hp, hms⟩ := ha.passed
  have hd : (c.apply s.engine).passed.drop s.engine.passed.length = ms := by rw [hp, List.drop_left]
  rw [ha.track] at hms
  intro k h buy n
  have hside := mem_side_passes info hO s.utilis hms
    (fun _ => (track_fields _ _).1 hshows) k h buy n
  have hcalled : (called O info c s).utilis = deliver O info ms s.utilis := by
    rw [← hd]
    rfl
  rw [hcalled, hside, hb k h buy n]
  have hpc' : (called O info c s).pc = size := hpc
  have hold : O.mem n (RiskTop.side O h buy (s0.utilis k)) → n.orderRef ≠ toInt x.id :=
    fun hn => (h0.keys k h buy n hn).ne
  change _ ↔ _ ∨ _ ∧ ¬(left ∨ (c.outcome x.id s.engine).leaves (s.track x)) ∧ _
  rw [show (s.engine.getRequestTrack x.id).orderRef = x.id from href]
  unfold Insertion.Own
  constructor
  · rintro ⟨hn | ⟨-, hleft, hown⟩, hno⟩
    · exact Or.inl hn
    · refine Or.inr ⟨hpc', fun hx => ?_, hown⟩
      rcases hx with hx | hx
      · exact hleft hx
      · exact hno ⟨hown.1, hown.2.1, hown.2.2.1, hx, by rw [hown.2.2.2]⟩
  · rintro (hn | ⟨-, hleft, hown⟩)
    · exact ⟨Or.inl hn, fun hx => hold hn hx.2.2.2.2⟩
    · exact ⟨Or.inr ⟨hpc, fun hx => hleft (Or.inl hx), hown⟩,
        fun hx => hleft (Or.inr hx.2.2.2.1)⟩

/-- Before the order has been entered. -/
theorem booksAre_called_early (hO : O.Lawful) (hb : BooksAre O x s0 left s) (hpc : s.pc < size)
    (hi : s.engine.Idle) (hc : c.OfOrder x.id) (hin : InTime O x s c) :
    BooksAre O x s0 left (called O info c s) := by
  have ha := answered_apply hi c hc
  obtain ⟨ms, hp, hms⟩ := ha.passed
  have hd : (c.apply s.engine).passed.drop s.engine.passed.length = ms := by rw [hp, List.drop_left]
  rw [ha.track] at hms
  intro k h buy n
  have hside := mem_side_passes info hO s.utilis hms
    (fun hx => (track_fields _ _).1 (hin.shows hx)) k h buy n
  have hcalled : (called O info c s).utilis = deliver O info ms s.utilis := by
    rw [← hd]
    rfl
  have hpc' : (called O info c s).pc = s.pc := rfl
  rw [hcalled, hside, hpc', ← hb k h buy n]
  refine and_iff_left_of_imp fun hn hx => ?_
  obtain ⟨rfl, rfl, -, hl, href⟩ := hx
  have hbooked : (c.outcome x.id s.engine).booked = true := by
    cases ho : c.outcome x.id s.engine with
    | nothing => rw [ho] at hl; exact hl.elim
    | marks => rw [ho] at hl; exact hl.elim
    | closes => rfl
    | fills => rfl
  exact hin.ref hbooked hpc buy n hn href

/-- The steps: `onNew` enters the order. -/
theorem booksAre_advance (hO : O.Lawful) (h0 : Ready O info x s0) (hs : Sim info x s0 s v)
    (hpc : s.pc ≤ size) (hleft : s.pc < size → ¬left) (hb : BooksAre O x s0 left s) :
    BooksAre O x s0 left (advance O info x s) := by
  have hkeep : ∀ {s' : Inserting τ}, s.pc < size → s'.utilis = s.utilis → s'.pc < size →
      BooksAre O x s0 left s' := by
    intro s' hlt hu hlt' k h buy n
    rw [hu, hb k h buy n]
    simp only [hlt.ne, hlt'.ne, false_and, or_false]
  rcases Nat.lt_or_ge s.pc 15 with hlt | hge
  · obtain ⟨w, hw⟩ : ∃ w, (insertWrites x.d x.unit x.id)[s.pc]? = some w :=
      ⟨_, List.getElem?_eq_getElem (by simpa [insertWrites] using hlt)⟩
    rw [advance_write hw]
    exact hkeep (by unfold size; omega) rfl (by unfold size; dsimp only; omega)
  · have hcases : s.pc = 15 ∨ s.pc = 16 ∨ s.pc = 17 ∨ s.pc = size := by unfold size at hpc ⊢; omega
    rcases hcases with h | h | h | h
    · rw [advance_fifteen h]
      exact hkeep (by rw [h]; decide) rfl (show 16 < size by decide)
    · rw [advance_sixteen h]
      exact hkeep (by rw [h]; decide) rfl (show 17 < size by decide)
    · rw [advance_seventeen h]
      have hlt : s.pc < size := by rw [h]; decide
      have href : (s.track x).orderRef = x.id := by
        have ht := hs.track
        rw [restOf_done (by omega)] at ht
        rw [ht, hs.ref]
      have hside : ∀ k h buy n, O.mem n (RiskTop.side O h buy (s.utilis k)) ↔
          O.mem n (RiskTop.side O h buy (s0.utilis k)) := by
        intro k h buy n
        rw [hb k h buy n]
        simp only [hlt.ne, false_and, or_false]
      intro k hh buy n
      dsimp only
      rw [Function.update_apply, href]
      unfold Insertion.Own
      by_cases hk : k = x.d.accIdx
      · subst hk
        rw [if_pos rfl, Running.mem_side_new hO x.d x.id x.nano hh buy
          (fun n hn => (h0.keys _ _ _ n ((hside _ _ _ n).mp hn)).le), hside]
        simp only [hleft hlt, not_false_eq_true, true_and]
        exact or_congr_right ⟨fun hx => ⟨rfl, hx.1.symm, hx.2.1.symm, hx.2.2⟩,
          fun hx => ⟨hx.2.1.symm, hx.2.2.1.symm, hx.2.2.2⟩⟩
      · rw [if_neg hk, hside]
        simp only [hk, false_and, and_false, or_false]
    · rw [advance_done (by rw [h]; decide)]
      exact hb

theorem booksAre_start (h : s0.pc = 0) : BooksAre O x s0 left s0 := by
  intro k h' buy n
  have hne : s0.pc ≠ size := by rw [h]; decide
  simp only [hne, false_and, or_false]

/-- The insertion alone. -/
theorem booksAre_exec_all (hO : O.Lawful) (h0 : Ready O info x s0) :
    BooksAre O x s0 False ((sys O info x).exec s0 (List.replicate size .step)) := by
  rw [exec_all h0.pc]
  intro k h buy n
  dsimp only
  rw [Function.update_apply]
  unfold Insertion.Own
  by_cases hk : k = x.d.accIdx
  · subst hk
    rw [if_pos rfl, Running.mem_side_new hO x.d x.id x.nano h buy
      (fun n hn => (h0.keys _ _ _ n hn).le)]
    simp only [not_false_eq_true, true_and]
    exact or_congr_right ⟨fun hx => ⟨hx.1.symm, hx.2.1.symm, hx.2.2⟩,
      fun hx => ⟨hx.1.symm, hx.2.1.symm, hx.2.2⟩⟩
  · rw [if_neg hk]
    simp only [hk, false_and, and_false, or_false]

/-! ### Runs -/

variable (O info x s0) in
/-- Some callback takes the order out before it is entered. -/
def Early (es : List InsertEvent) : Prop :=
  AtSome (fun pre ev => ((sys O info x).exec s0 pre).pc < size ∧
    ∃ c, ev = .callback c ∧ TakesOut x ((sys O info x).exec s0 pre) c) es

variable (O info x s0) in
/-- Some callback takes the order out after it has been entered. -/
def Late (es : List InsertEvent) : Prop :=
  AtSome (fun pre ev => ((sys O info x).exec s0 pre).pc = size ∧
    ∃ c, ev = .callback c ∧ TakesOut x ((sys O info x).exec s0 pre) c) es

/-- The insertion, and the callbacks of a schedule behind it. -/
def sequential (es : List InsertEvent) : List InsertEvent :=
  List.replicate size .step ++ es.filter (· ≠ .step)

/-- Two ends of the insertion that agree on the track, the accounts and the books. -/
structure SameEnd (O : Treap τ) (x : Insertion) (s v : Inserting τ) : Prop where
  track : s.track x = v.track x
  account : ∀ k, AccBase.Same (s.utilis k).accBase (v.utilis k).accBase
  books : ∀ k h buy n,
    O.mem n (RiskTop.side O h buy (s.utilis k)) ↔ O.mem n (RiskTop.side O h buy (v.utilis k))

theorem takesOut_eq (hs : Sim info x s0 s v) (hin : InTime O x s c) :
    TakesOut x s c ↔ TakesOut x v c := by
  unfold TakesOut
  rw [← outcome_eq hs hin]
  cases ho : c.outcome x.id s.engine with
  | nothing => exact Iff.rfl
  | marks => exact Iff.rfl
  | closes => exact Iff.rfl
  | fills w px =>
    obtain ⟨hvol, h8⟩ := hin.fills w px ho
    have htraded := volTraded_restOf (x := x) h8 (s.track x)
    rw [hs.track] at htraded
    simp only [Outcome.leaves]
    rw [hvol, hs.vol, htraded]

/-- What a run keeps beside the sequential schedule. -/
structure Beside (O : Treap τ) (info : TradeBaseInfo) (x : Insertion) (s0 : Inserting τ)
    (early late : Prop) (s v : Inserting τ) : Prop where
  sim : Sim info x s0 s v
  pc : s.pc ≤ size
  pc' : v.pc = size
  notYet : s.pc < size → ¬late
  books : BooksAre O x s0 late s
  books' : BooksAre O x s0 (early ∨ late) v

theorem pc_advance (O : Treap τ) (info : TradeBaseInfo) (x : Insertion) (s : Inserting τ) :
    (advance O info x s).pc = if s.pc < size then s.pc + 1 else s.pc := by
  unfold advance
  by_cases h : s.pc < size
  · rw [List.getElem?_eq_getElem (by rwa [length_steps]), if_pos h]
  · rw [List.getElem?_eq_none (by rw [length_steps]; omega), if_neg h]

theorem beside_run (hO : O.Lawful) (hv : info.VolMultiplesOk) (h0 : Ready O info x s0)
    {es : List InsertEvent} (hadm : (sys O info x).Admits s0 es)
    (hin : AtEach (fun pre ev => ∀ c, ev = .callback c →
      InTime O x ((sys O info x).exec s0 pre) c) es) :
    Beside O info x s0 (Early O info x s0 es) (Late O info x s0 es) ((sys O info x).exec s0 es)
      ((sys O info x).exec s0 (sequential es)) := by
  induction es using List.reverseRecOn with
  | nil =>
    have hstart : ((sys O info x).exec s0 (sequential [])) =
        (sys O info x).exec s0 (List.replicate size .step) := by
      unfold sequential
      rw [List.filter_nil, List.append_nil]
    rw [hstart]
    refine ⟨sim_start hv h0, ?_, ?_, fun _ => atSome_nil, booksAre_start h0.pc,
      (booksAre_exec_all hO h0).congr ?_⟩
    · rw [Sys.exec_nil, h0.pc]
      exact Nat.zero_le _
    · rw [exec_all h0.pc]
    · exact iff_of_false id (not_or.mpr ⟨atSome_nil, atSome_nil⟩)
  | append_singleton es ev ih =>
    obtain ⟨hadm', hok⟩ := ((sys O info x).admits_append s0 es [ev]).mp hadm
    obtain ⟨hin', hnow⟩ := atEach_concat.mp hin
    have hb := ih hadm' hin'
    rw [Early, Late, atSome_concat, atSome_concat, ← Early, ← Late, Sys.exec_append, Sys.exec_cons,
      Sys.exec_nil]
    generalize hs : (sys O info x).exec s0 es = s at hb hok hnow ⊢
    cases ev with
    | step =>
      have hseq : sequential (es ++ [.step]) = sequential es := by
        unfold sequential
        rw [List.filter_append]
        simp
      have hno : ∀ P : Prop, ¬(P ∧ ∃ c, InsertEvent.step = .callback c ∧ TakesOut x s c) := by
        rintro P ⟨-, c, hc, -⟩
        cases hc
      have hearly : (Early O info x s0 es ∨ (s.pc < size ∧
          ∃ c, InsertEvent.step = .callback c ∧ TakesOut x s c)) ↔ Early O info x s0 es :=
        or_iff_left (hno _)
      have hlate : (Late O info x s0 es ∨ (s.pc = size ∧
          ∃ c, InsertEvent.step = .callback c ∧ TakesOut x s c)) ↔ Late O info x s0 es :=
        or_iff_left (hno _)
      rw [hseq, propext hearly, propext hlate]
      change Beside O info x s0 _ _ (advance O info x s) _
      have hpc := pc_advance O info x s
      refine ⟨sim_advance hv hb.sim, ?_, hb.pc', ?_, booksAre_advance hO h0 hb.sim hb.pc hb.notYet hb.books,
        hb.books'⟩
      · rw [hpc]
        have := hb.pc
        split <;> omega
      · intro hlt
        refine hb.notYet ?_
        rw [hpc] at hlt
        split at hlt <;> omega
    | callback c =>
      have hc : c.OfOrder x.id := hok.1 c rfl
      have hit := hnow c rfl
      have hseq : (sys O info x).exec s0 (sequential (es ++ [.callback c])) =
          called O info c ((sys O info x).exec s0 (sequential es)) := by
        unfold sequential
        rw [List.filter_append, ← List.append_assoc, Sys.exec_append]
        rfl
      have hone : ∀ P : Prop, (P ∧ ∃ c', InsertEvent.callback c = .callback c' ∧ TakesOut x s c') ↔
          P ∧ TakesOut x s c := by
        intro P
        refine and_congr_right fun _ => ⟨?_, fun h => ⟨c, rfl, h⟩⟩
        rintro ⟨c', hc', h⟩
        cases hc'
        exact h
      rw [hseq, propext (hone _), propext (hone _)]
      generalize (sys O info x).exec s0 (sequential es) = v at hb ⊢
      change Beside O info x s0 _ _ (called O info c s) _
      have hsim := sim_called hv hb.sim hc hit
      have hv' := booksAre_called hO h0 hb.books' hb.pc' hb.sim.idle' hb.sim.shows hb.sim.ref hc
      rw [← propext (takesOut_eq hb.sim hit)] at hv'
      rcases Nat.lt_or_ge s.pc size with hlt | hge
      · have hlate : ¬(s.pc = size ∧ TakesOut x s c) := fun hx => hlt.ne hx.1
        rw [propext (or_iff_left hlate), propext (and_iff_right hlt)]
        exact ⟨hsim, hb.pc, hb.pc', hb.notYet,
          booksAre_called_early hO hb.books hlt hb.sim.idle hc hit, hv'.congr or_right_comm⟩
      · have hpc : s.pc = size := le_antisymm hb.pc hge
        have hearly : ¬(s.pc < size ∧ TakesOut x s c) := fun hx => absurd hpc hx.1.ne
        have ht : s.track x = v.track x := by
          have ht := hb.sim.track
          rw [restOf_done (by rw [hpc]; decide)] at ht
          exact ht
        have hs' := booksAre_called hO h0 hb.books hpc hb.sim.idle (ht ▸ hb.sim.shows)
          (ht ▸ hb.sim.ref) hc
        rw [propext (or_iff_left hearly), propext (and_iff_right hpc)]
        exact ⟨hsim, hb.pc, hb.pc', fun hlt => absurd hpc hlt.ne, hs', hv'.congr or_assoc⟩

/-- A callback behind the writes to the track is in time. -/
theorem inTime_of_filled {early late : Prop} (h0 : Ready O info x s0)
    (hb : Beside O info x s0 early late s v) (hpc : 15 ≤ s.pc) : InTime O x s c := by
  have ht : s.track x = v.track x := by
    have ht := hb.sim.track
    rw [restOf_done hpc] at ht
    exact ht
  have hfilled : s.filledIn x = s.engine := by
    unfold filledIn Engine.setRequestTrack track Engine.getRequestTrack
    rw [restOf_done hpc, Function.update_eq_self]
  refine ⟨by rw [hfilled], fun _ => by omega, fun _ => ht ▸ hb.sim.shows,
    fun _ _ _ => ⟨ht ▸ hb.sim.vol, by omega⟩, fun _ hlt buy n hn => ?_⟩
  rw [hb.books] at hn
  rw [ht, hb.sim.ref]
  rcases hn with hn | hn
  · exact (h0.keys _ _ _ _ hn).ne
  · exact absurd hn.1 hlt.ne

theorem atEach_inTime (hO : O.Lawful) (hv : info.VolMultiplesOk) (h0 : Ready O info x s0)
    {es : List InsertEvent} (hadm : (sys O info x).Admits s0 es)
    (hes : AtEach (fun pre ev => ev ≠ .step → 15 ≤ ((sys O info x).exec s0 pre).pc) es) :
    AtEach (fun pre ev => ∀ c, ev = .callback c →
      InTime O x ((sys O info x).exec s0 pre) c) es := by
  induction es using List.reverseRecOn with
  | nil => exact atEach_nil _
  | append_singleton es ev ih =>
    obtain ⟨hadm', -⟩ := ((sys O info x).admits_append s0 es [ev]).mp hadm
    obtain ⟨hes', hnow⟩ := atEach_concat.mp hes
    have hin := ih hadm' hes'
    refine atEach_concat.mpr ⟨hin, fun c hc => ?_⟩
    exact inTime_of_filled h0 (beside_run hO hv h0 hadm' hin) (hnow (by rw [hc]; simp))

/-- The accounts of an engine that has been started. -/
theorem ready_of_start (hO : O.Lawful) (hv : info.VolMultiplesOk) {conf : RiskConf} {a0 : AccBase}
    (hl : Linked info a0) {r : RiskTop τ} (hr : initAccount O info conf (some a0) [] = some r)
    {e : Engine} (he : e.Idle) : Ready O info x ⟨e, fun _ => r, 0⟩ where
  pc := rfl
  idle := he
  linked _ := by
    rw [Running.accBase_start hv hl hr]
    exact (booked_rebuilt hv hl []).linked
  registered _ h i hi := by
    rw [Running.accBase_start hv hl hr]
    exact (booked_rebuilt hv hl []).instrSome h i hi (touched_regPostings hi _)
  keys _ h buy n hn := by
    rw [(Running.records_start hr).1] at hn
    exact absurd hn (hO.mem_empty n)

/-- A schedule whose callbacks are all in time ends as the insertion followed by
its callbacks: with the same track and the same accounts, and with the same books
exactly when an order taken out before it is entered is taken out once more
behind. -/
theorem sameEnd_iff (hO : O.Lawful) (hv : info.VolMultiplesOk) (h0 : Ready O info x s0)
    {es : List InsertEvent} (hadm : (sys O info x).Admits s0 es)
    (hdone : ((sys O info x).exec s0 es).pc = size)
    (hin : AtEach (fun pre ev => ∀ c, ev = .callback c →
      InTime O x ((sys O info x).exec s0 pre) c) es) :
    SameEnd O x ((sys O info x).exec s0 es) ((sys O info x).exec s0 (sequential es)) ↔
      (Early O info x s0 es → Late O info x s0 es) := by
  have hb := beside_run hO hv h0 hadm hin
  constructor
  · intro h hearly
    by_contra hlate
    -- the order's own node tells the books apart
    have hn := h.books x.d.accIdx x.d.instrHash (decide (x.d.dir = .buy))
      { orderRef := toInt x.id, price := x.d.price, dir := x.d.dir }
    rw [hb.books, hb.books'] at hn
    rcases hn.mp (Or.inr ⟨hdone, hlate, rfl, rfl, rfl, rfl⟩) with hold | ⟨-, hno, -⟩
    · exact absurd (h0.keys _ _ _ _ hold) (lt_irrefl _)
    · exact hno (Or.inl hearly)
  · intro hel
    refine ⟨?_, fun k => ?_, fun k h buy n => ?_⟩
    · have ht := hb.sim.track
      rw [hdone, restOf_done (by decide)] at ht
      exact ht
    · have ha := hb.sim.account k
      rw [if_neg fun hx => hx.1.ne hdone] at ha
      exact ha.same
    · rw [hb.books, hb.books']
      have hiff : (Early O info x s0 es ∨ Late O info x s0 es) ↔ Late O info x s0 es :=
        or_iff_right_of_imp hel
      rw [hiff, hdone, hb.pc']

/-! ## A buy of two lots -/

def rbOrder : Insertion := ⟨⟨7, 0, 0, 1, "rb1810", 10, 2, .buy, .opn, 1⟩, ⟨0, 0⟩, 1, 0⟩

/-- The order has been sent. -/
def rbSent : Inserting (List TreapNode) :=
  { engine := { sent := [(1, 0)], accountUnits := [⟨0, 0⟩] }, utilis := fun _ => Running.rbStart }

def rbReported (orderStatus : OrderStatus) : InsertEvent :=
  .callback (.rtnOrder ⟨0, "1", "rb1810", orderStatus, 2, ""⟩)

def rbTraded : InsertEvent := .callback (.rtnTrade ⟨0, "1", "31", "rb1810", 10, 2, .buy, .opn⟩)

/-- Accepted before the acknowledgement, filled behind `onNew`. -/
def rbSchedule : List InsertEvent :=
  List.replicate 15 .step ++ [rbReported .unknown, .step, .step, .step, rbTraded]

theorem ready_rb : Ready (listOps TreapNode.orderRef TreapNode.priorityOrder) .rb rbOrder rbSent :=
  ready_of_start (listOps_lawful _ _) TradeBaseInfo.rb_volMultiplesOk linked_empty
    Running.initAccount_rbStart (Or.inl rfl)

theorem admits_rb (es : List InsertEvent)
    (hes : ∀ ev ∈ es, ev = .step ∨ ev = rbTraded ∨ ∃ st, ev = rbReported st) :
    (sys (listOps TreapNode.orderRef TreapNode.priorityOrder) .rb rbOrder).Admits rbSent es := by
  have href : CString.atoi "1" = 1 := by decide +kernel
  refine Sys.admits_of_forall _ (fun ev hev s c hc => ?_) rbSent
  rcases hes ev hev with rfl | rfl | ⟨st, rfl⟩
  · cases hc
  · cases hc
    exact href
  · cases hc
    exact href

theorem sameEnd_rbSchedule :
    SameEnd (listOps TreapNode.orderRef TreapNode.priorityOrder) rbOrder
      ((sys (listOps TreapNode.orderRef TreapNode.priorityOrder) .rb rbOrder).exec rbSent rbSchedule)
      ((sys (listOps TreapNode.orderRef TreapNode.priorityOrder) .rb rbOrder).exec rbSent
        (sequential rbSchedule)) ↔
      (Early (listOps TreapNode.orderRef TreapNode.priorityOrder) .rb rbOrder rbSent rbSchedule →
        Late (listOps TreapNode.orderRef TreapNode.priorityOrder) .rb rbOrder rbSent rbSchedule) := by
  have hO := listOps_lawful TreapNode.orderRef TreapNode.priorityOrder
  have hadm := admits_rb rbSchedule (by simp [rbSchedule])
  have hes : AtEach (fun pre ev => ev ≠ .step → 15 ≤ ((sys (listOps TreapNode.orderRef
      TreapNode.priorityOrder) .rb rbOrder).exec rbSent pre).pc) rbSchedule := by
    rw [atEach_iff_getElem]
    decide +kernel
  exact sameEnd_iff hO TradeBaseInfo.rb_volMultiplesOk ready_rb hadm (by decide +kernel)
    (atEach_inTime hO TradeBaseInfo.rb_volMultiplesOk ready_rb hadm hes)

/-- A fill that overtakes the writes is lost; an order cancelled before them stays
pending; one cancelled before `onNew` stays in its book. -/
theorem not_sameEnd_rb :
    let O := listOps TreapNode.orderRef TreapNode.priorityOrder
    let S := sys O .rb rbOrder
    let fill := rbTraded :: List.replicate size .step
    let cancel := rbReported .canceled :: List.replicate size .step
    let late := List.replicate 17 .step ++ [rbReported .canceled, .step]
    Ready O .rb rbOrder rbSent ∧ (S.Admits rbSent fill ∧ S.Admits rbSent cancel ∧ S.Admits rbSent late) ∧
      ¬SameEnd O rbOrder (S.exec rbSent fill) (S.exec rbSent (sequential fill)) ∧
      ¬SameEnd O rbOrder (S.exec rbSent cancel) (S.exec rbSent (sequential cancel)) ∧
      ¬SameEnd O rbOrder (S.exec rbSent late) (S.exec rbSent (sequential late)) := by
  refine ⟨ready_rb, ⟨admits_rb _ (by simp), admits_rb _ (by simp), admits_rb _ (by simp)⟩, fun h => ?_,
    fun h => ?_, fun h => ?_⟩
  · exact absurd (congrArg OrderTrack.volTraded h.track) (by decide +kernel)
  · have hp := congrArg (Option.map fun m => m.unitVol.posLongTdOpnIng) ((h.account 0).instr 1)
    exact absurd hp (by decide +kernel)
  · have hn : (⟨1, 10, .buy⟩ : TreapNode) ∈ (_ : List TreapNode) ↔
        (⟨1, 10, .buy⟩ : TreapNode) ∈ (_ : List TreapNode) := h.books 0 1 true ⟨1, 10, .buy⟩
    exact absurd hn (by decide +kernel)

end Inserting

end NatFramework.Td
