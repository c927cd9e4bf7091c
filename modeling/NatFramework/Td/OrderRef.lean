import NatFramework.Td.Ctp
import NatFramework.Utility.Int2String

/-!
# The reference of an order

`req_order_insert` sends the request id as the text `OrderRef`, and the callbacks
of the front read it back with `atoi`.

* `orderRef_iff`: this is the decimal text of the id, and every callback that
  carries it finds the id again, but for the smallest `int`.
-/
namespace NatFramework.Td

open Lib Utility

namespace CtpCallback

/-- The `OrderRef` of the callbacks that take their request id from it. -/
def orderRef : CtpCallback → Option String
  | rtnOrder p => some p.orderRef
  | rtnTrade p => some p.orderRef
  | errRtnOrderInsert p _ => some p.orderRef
  | errRtnOrderAction p _ => some p.orderRef
  | rspOrderInsert _ _ _ | rspOrderAction _ _ _ => none

theorem requestId_of_orderRef {c : CtpCallback} {s : String} (h : c.orderRef = some s) :
    c.requestId = CString.atoi s := by
  cases c with
  | rspOrderInsert p rsp id => cases h
  | rspOrderAction p rsp id => cases h
  | rtnOrder p => rw [← Option.some.inj h, requestId]
  | rtnTrade p => rw [← Option.some.inj h, requestId]
  | errRtnOrderInsert p rsp => rw [← Option.some.inj h, requestId]
  | errRtnOrderAction p rsp => rw [← Option.some.inj h, requestId]

end CtpCallback

/-- Wherever the text is written it takes twelve bytes at most, is a decimal
representation of the number and is turned back into it by the callbacks. -/
def TurnedBack (n : Int) : Prop :=
  ∀ (m : Mem) (buf : Nat), ∃ m' s, int2string m buf n = .ok m' ∧ CStrAt m' buf s ∧
    s.length ≤ 11 ∧ (∀ a, a < buf ∨ buf + s.length < a → m' a = m a) ∧ IsDecimal s n ∧
    ∀ c : CtpCallback, c.orderRef = some s → c.requestId = n

theorem orderRef_iff (n : Int) (hn : InInt n) : TurnedBack n ↔ n ≠ -2 ^ 31 := by
  constructor
  · rintro h rfl
    obtain ⟨m', s, hok, -⟩ := h (fun _ => 0) 0
    rw [int2string_min] at hok
    cases hok
  · intro hmin m buf
    have hdec := isDecimal_decimalText n
    refine ⟨_, decimalText n, int2string_eq m buf hn hmin,
      cstrAt_blit m buf fun c => chars_of_isDecimal hdec, length_decimalText hn, ?_, hdec, ?_⟩
    · intro a ha
      refine blit_outside (ha.imp_right fun h => ?_)
      rw [textBytes, List.length_append, List.length_map, String.length_toList, List.length_singleton]
      omega
    · intro c hc
      rw [CtpCallback.requestId_of_orderRef hc, hdec.atoi]

/-- A request id of the first account. -/
theorem orderRef_first : TurnedBack 1000000 :=
  (orderRef_iff 1000000 (by decide)).mpr (by decide)

theorem orderRef_of_min : ¬∀ n : Int, InInt n → TurnedBack n := by
  intro h
  obtain ⟨m', s, hok, -⟩ := h (-2 ^ 31) (by decide) (fun _ => 0) 0
  rw [int2string_min] at hok
  cases hok

end NatFramework.Td
