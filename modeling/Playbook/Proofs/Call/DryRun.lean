import Playbook.Call.DryRun
import Playbook.Proofs.Text.Numeral

/-!
# Identifiers of dry runs

A dry run makes up addresses and transactions from its count of calls, as hexadecimal digits of a
fixed count. The main statement: over fewer calls than the count has values, whatever they call, no
address of a deployment and no transaction is made up twice, and every address is a literal one.
-/

namespace Playbook

/-- What calls answer that are made one after another, and the state of the invoker then. -/
def Invoker.callEach {σ : Type} (invoker : Invoker σ) : List Call → σ →
    List (Except String Value) × σ
  | [], s => ([], s)
  | call :: rest, s =>
    let (outcome, s) := invoker call s
    let (outcomes, s) := Invoker.callEach invoker rest s
    (outcome :: outcomes, s)

namespace DryRun

open Text Value

/-! ## Identifiers -/

theorem isAddress_address (count : Nat) : isAddress (address count) = true := by
  have hdigits : ∀ c ∈ hexDigits 40 count, (digit? 16 c).isSome = true := fun c hc =>
    (numeral_hexDigits 39 count).isSome_digit? hc
  simpa [isAddress, address, hexPadded] using hdigits

/-- A count of 64 bits has room in the digits of an address and of a transaction. -/
theorem lt_digits {n width : Nat} (h : n < 2 ^ 64) (hwidth : 16 ≤ width) : n < 16 ^ width :=
  calc n < 16 ^ 16 := h
    _ ≤ 16 ^ width := Nat.pow_le_pow_right (by decide) hwidth

theorem address_inj {n m : Nat} (hn : n < 2 ^ 64) (hm : m < 2 ^ 64) :
    address n = address m ↔ n = m :=
  hexPadded_inj (by decide) (lt_digits hn (by decide)) (lt_digits hm (by decide))

theorem transaction_inj {n m : Nat} (hn : n < 2 ^ 64) (hm : m < 2 ^ 64) :
    transaction n = transaction m ↔ n = m :=
  hexPadded_inj (by decide) (lt_digits hn (by decide)) (lt_digits hm (by decide))

/-! ## One answer -/

theorem child?_address_answer {call : Call} (h : call.method = "new") (count : Nat) :
    (answer call count).child? (.key "address") = some (.string (address count)) := by
  rw [answer, if_pos h]
  rfl

/-- Deployments and calls on instances answer with a transaction. -/
theorem child?_tx_answer (call : Call) (count : Nat) :
    (answer call count).child? (.key "tx") =
      if call.method = "at" ∨ call.method = "link" then none
      else some (.string (transaction count)) := by
  by_cases hnew : call.method = "new"
  · simp [answer, hnew, child?, Fields.get?]
  by_cases hat : call.method = "at"
  · simp [answer, hat, child?]
  by_cases hlink : call.method = "link"
  · simp [answer, hlink, child?]
  · cases haddress : call.address <;>
      simp [answer, echo, hnew, hat, hlink, haddress, child?, Fields.get?]

/-! ## All answers -/

theorem invoker_of_lt (call : Call) {count : Nat} (h : count + 1 < 2 ^ 64) :
    invoker call count = (.ok (answer call (count + 1)), count + 1) := by
  have hcount : (count + 1) % wordBound = count + 1 := Nat.mod_eq_of_lt h
  simp only [invoker, hcount]

/-- While the count does not start anew, the place of a call among the others is its identifier. -/
theorem callEach_invoker (calls : List Call) (count : Nat) (h : count + calls.length < 2 ^ 64) :
    (invoker.callEach calls count).2 = count + calls.length ∧
      ∀ i : Nat, (invoker.callEach calls count).1[i]? =
        calls[i]?.map fun call => .ok (answer call (count + i + 1)) := by
  induction calls generalizing count with
  | nil => simp [Invoker.callEach]
  | cons call rest ih =>
    rw [List.length_cons] at h
    obtain ⟨hcount, houtcomes⟩ := ih (count + 1) (by omega)
    simp only [Invoker.callEach, invoker_of_lt call (by omega : count + 1 < 2 ^ 64)]
    refine ⟨by rw [hcount, List.length_cons]; omega, fun i => ?_⟩
    -- The later calls are counted from one more on.
    cases i with
    | zero => rfl
    | succ i =>
      rw [List.getElem?_cons_succ, List.getElem?_cons_succ, houtcomes,
        Nat.add_right_comm count 1 i]
      rfl

/-- Each answer is that of the call at its place, counted by the place. -/
theorem exists_call_of_answer {calls : List Call} (h : calls.length < 2 ^ 64) {i : Nat} {v : Value}
    (hv : (invoker.callEach calls 0).1[i]? = some (.ok v)) :
    ∃ call, calls[i]? = some call ∧ v = answer call (i + 1) ∧ i + 1 < 2 ^ 64 := by
  rw [(callEach_invoker calls 0 (by omega)).2, Nat.zero_add] at hv
  obtain ⟨call, hcall, hv⟩ := Option.map_eq_some_iff.1 hv
  have hi := (List.getElem?_eq_some_iff.1 hcall).1
  exact ⟨call, hcall, (Except.ok.inj hv).symm, by omega⟩

/-- The outcomes of calls in which each deployment and each transaction has an identifier of its
own. -/
structure Identified (calls : List Call) (outcomes : List (Except String Value)) : Prop where
  /-- Every call is answered: a deployment with a literal address, and all but attachments and links
  with a transaction. -/
  answered : ∀ (i : Nat) call, calls[i]? = some call → ∃ v, outcomes[i]? = some (.ok v) ∧
    (call.method = "new" → ∃ address, v.child? (.key "address") = some (.string address) ∧
      isAddress address = true) ∧
    ((v.child? (.key "tx")).isSome ↔ call.method ≠ "at" ∧ call.method ≠ "link")
  addresses : ∀ (i j : Nat) c d v w, i ≠ j → calls[i]? = some c → calls[j]? = some d →
    c.method = "new" → d.method = "new" → outcomes[i]? = some (.ok v) →
    outcomes[j]? = some (.ok w) → v.child? (.key "address") ≠ w.child? (.key "address")
  transactions : ∀ (i j : Nat) v w t u, i ≠ j → outcomes[i]? = some (.ok v) →
    outcomes[j]? = some (.ok w) → v.child? (.key "tx") = some t → w.child? (.key "tx") = some u →
    t ≠ u

/-- Over fewer than `2 ^ 64` calls, the count is that of the calls made, every deployment has a
literal address of its own, and no two calls have the same transaction. -/
theorem identifiers_unique {calls : List Call} (h : calls.length < 2 ^ 64) :
    (invoker.callEach calls 0).2 = calls.length ∧
      Identified calls (invoker.callEach calls 0).1 := by
  obtain ⟨hcount, houtcomes⟩ := callEach_invoker calls 0 (by omega)
  refine ⟨by omega, ?_, ?_, ?_⟩
  · intro i call hcall
    refine ⟨answer call (i + 1), by rw [houtcomes, hcall, Nat.zero_add]; rfl, fun hnew => ?_, ?_⟩
    · exact ⟨address (i + 1), child?_address_answer hnew _, isAddress_address _⟩
    · rw [child?_tx_answer, ← not_or]
      split <;> simp_all
  · intro i j c d v w hij hc hd hcnew hdnew hv hw heq
    obtain ⟨c', hc', rfl, hi⟩ := exists_call_of_answer h hv
    obtain ⟨d', hd', rfl, hj⟩ := exists_call_of_answer h hw
    -- Equal addresses come from equal counts, and the count is the place of the call.
    obtain rfl := Option.some.inj (hc.symm.trans hc')
    obtain rfl := Option.some.inj (hd.symm.trans hd')
    rw [child?_address_answer hcnew, child?_address_answer hdnew, Option.some.injEq,
      Value.string.injEq, address_inj hi hj] at heq
    omega
  · intro i j v w t u hij hv hw ht hu heq
    obtain ⟨c, -, rfl, hi⟩ := exists_call_of_answer h hv
    obtain ⟨d, -, rfl, hj⟩ := exists_call_of_answer h hw
    -- Both answers have a transaction, and so neither is an attachment or a link.
    rw [child?_tx_answer] at ht hu
    split at ht
    · cases ht
    split at hu
    · cases hu
    rw [← Option.some.inj ht, ← Option.some.inj hu, Value.string.injEq, transaction_inj hi hj] at heq
    omega

/-- The same contract is deployed twice, and linked and called in between. -/
theorem identifiers_unique_redeployed :
    let calls : List Call := [⟨"Token", none, "new", [], .static⟩,
      ⟨"Token", none, "link", [.string "Lib"], .static⟩,
      ⟨"Token", some "0xab", "mint", [.int 5], .onInstance⟩, ⟨"Token", none, "new", [], .static⟩]
    calls.length < 2 ^ 64 ∧ (invoker.callEach calls 0).2 = 4 ∧
      Identified calls (invoker.callEach calls 0).1 ∧
      (invoker.callEach calls 0).1[3]? = some (.ok (.object [
        ("address", .string "0x0000000000000000000000000000000000000004"),
        ("tx", .string ("0x000000000000000000000000" ++
          "0000000000000000000000000000000000000004"))])) := by
  intro calls
  have h : calls.length < 2 ^ 64 := by decide
  exact ⟨h, (identifiers_unique h).1, (identifiers_unique h).2, rfl⟩

end DryRun

end Playbook
