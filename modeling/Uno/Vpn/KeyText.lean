import Uno.Core.Text
import Uno.Vpn.Keys
import Uno.Lib.Like

/-!
# Key ids as texts

A key id is a text: the prefix of its key material, followed by the place of the key in it. Pairs are
written as JSON and numbers in decimal, and both are read back from the text (`parsePair_dumpsPair`,
`splitKeyId_pairKeyId`, `splitKeyId_endKeyId`), whatever the prefix.
-/

namespace Uno

/-! ### Pairs -/

/-- `json.dumps(pair)`. -/
def dumpsPair (pair : ℕ × ℕ) : Text := '[' :: (dec pair.1 ++ ',' :: ' ' :: (dec pair.2 ++ [']']))

/-- `tuple(json.loads(text))`, for the text of a pair. -/
def parsePair : Text → Result (ℕ × ℕ)
  | '[' :: rest =>
    match rest.dropWhile (· ≠ ',') with
    | ',' :: ' ' :: second =>
      if second.dropWhile (· ≠ ']') = [']'] then do
        .ok (← pyInt (rest.takeWhile (· ≠ ',')), ← pyInt (second.takeWhile (· ≠ ']')))
      else .error (.value "not a pair")
    | _ => .error (.value "not a pair")
  | _ => .error (.value "not a pair")

@[simp] theorem parsePair_dumpsPair (pair : ℕ × ℕ) : parsePair (dumpsPair pair) = .ok pair := by
  have hfirst := takeWhile_ne_append (' ' :: (dec pair.2 ++ [']']))
    fun d (hd : d ∈ dec pair.1) => ne_of_mem_dec (d := ',') hd (by decide)
  have hsecond := takeWhile_ne_append []
    fun d (hd : d ∈ dec pair.2) => ne_of_mem_dec (d := ']') hd (by decide)
  rw [dumpsPair, parsePair]
  simp only [hfirst, hsecond, if_pos, pyInt_dec]
  rfl

theorem dumpsPair_injective : Function.Injective dumpsPair := by
  intro p q hpq
  have hok : (Except.ok p : Result (ℕ × ℕ)) = .ok q := by rw [← parsePair_dumpsPair p, ← parsePair_dumpsPair q, hpq]
  exact Except.ok.inj hok

theorem colon_not_mem_dumpsPair (pair : ℕ × ℕ) : ∀ c ∈ dumpsPair pair, c ≠ ':' := by
  intro c hc
  simp only [dumpsPair, List.mem_cons, List.mem_append, List.not_mem_nil, or_false] at hc
  rcases hc with rfl | hc | rfl | rfl | hc | rfl
  · decide
  · exact ne_of_mem_dec hc (by decide)
  · decide
  · decide
  · exact ne_of_mem_dec hc (by decide)
  · decide

/-! ### Key ids -/

/-- `{prefix}:root`. -/
def rootKeyId (pfx : Text) : Text := pfx ++ ":root".toList

/-- `{prefix}:peer:`. -/
def peersPrefix (pfx : Text) : Text := pfx ++ ":peer:".toList

/-- `{prefix}:peer:{peer_id}`. -/
def peerKeyId (pfx : Text) (peer : ℕ) : Text := peersPrefix pfx ++ dec peer

/-- `{self.prefix}:psks`. -/
def psksPrefix (pfx : Text) : Text := pfx ++ ":psks".toList

/-- `{self.prefix}:pair`. -/
def pairsPrefix (pfx : Text) : Text := pfx ++ ":pair".toList

/-- `VpnKeysMap.key_id(pair)`. -/
def pairKeyId (pfx : Text) (pair : ℕ × ℕ) : Text := pfx ++ ':' :: dumpsPair pair

/-- The key of an end of a pair: `{self.key_id(pair)}:{i}`. -/
def endKeyId (pfx : Text) (pair : ℕ × ℕ) (i : ℕ) : Text := pairKeyId pfx pair ++ ':' :: dec i

/-- The pair and the rest of a key id: `key_id` after the prefix, cut at its first colon. -/
def splitKeyId (pfx keyId : Text) : Text × Option Text :=
  let rest := keyId.drop (pfx.length + 1)
  match rest.takeWhile (· ≠ ':'), rest.dropWhile (· ≠ ':') with
  | c :: start, _ :: d :: extra => (c :: start, some (d :: extra))
  | c :: start, [_] => (c :: start, none)
  | _, _ => (rest, none)

variable {pfx : Text}

theorem peerKeyId_injective (pfx : Text) : Function.Injective (peerKeyId pfx) := by
  intro i j hij
  exact dec_injective (List.append_cancel_left hij)

theorem pairKeyId_injective (pfx : Text) : Function.Injective (pairKeyId pfx) := by
  intro p q hpq
  exact dumpsPair_injective (List.cons.inj (List.append_cancel_left hpq)).2

theorem drop_prefix (pfx rest : Text) : (pfx ++ ':' :: rest).drop (pfx.length + 1) = rest := by
  rw [List.drop_append, List.drop_of_length_le (Nat.le_succ _)]
  simp

theorem splitKeyId_pairKeyId (pair : ℕ × ℕ) : splitKeyId pfx (pairKeyId pfx pair) = (dumpsPair pair, none) := by
  have hall : ∀ c ∈ dumpsPair pair, decide (c ≠ ':') = true := fun c hc =>
    decide_eq_true (colon_not_mem_dumpsPair pair c hc)
  rw [splitKeyId, pairKeyId, drop_prefix]
  simp only [List.takeWhile_eq_self_iff.mpr hall, List.dropWhile_eq_nil_iff.mpr hall]
  rfl

theorem splitKeyId_endKeyId (pfx : Text) (pair : ℕ × ℕ) (i : ℕ) :
    splitKeyId pfx (endKeyId pfx pair i) = (dumpsPair pair, some (dec i)) := by
  have hcut := takeWhile_ne_append (dec i) (colon_not_mem_dumpsPair pair)
  have hpair : dumpsPair pair = '[' :: (dec pair.1 ++ ',' :: ' ' :: (dec pair.2 ++ [']'])) := rfl
  rw [splitKeyId, endKeyId, pairKeyId, List.append_assoc, List.cons_append, drop_prefix]
  simp only [hcut]
  rw [hpair]
  rcases hdec : dec i with _ | ⟨d, extra⟩
  · exact absurd hdec Nat.toDigits_ne_nil
  · rfl

theorem endKeyId_inj {p q : ℕ × ℕ} {i j : ℕ} (h : endKeyId pfx p i = endKeyId pfx q j) : p = q ∧ i = j := by
  have hsplit := splitKeyId_endKeyId pfx p i
  rw [h, splitKeyId_endKeyId] at hsplit
  obtain ⟨hpair, hend⟩ := Prod.mk.inj hsplit
  exact ⟨dumpsPair_injective hpair.symm, dec_injective (Option.some.inj hend).symm⟩

end Uno
