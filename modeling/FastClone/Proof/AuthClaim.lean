import FastClone.Spec.AuthClaim
import FastClone.Proof.Wire

/-!
# The password check of the `Auth` claim

* `decode_accepts`: the decoder accepts exactly the payloads that begin with the expected
  password.
* `decode_recovers`: with the client's own password, both trailing fields are recovered.
* `auth_claim_exact_iff`: when that makes the check exact.
-/

namespace FastClone.AuthClaim

open Codec FastClone.Delta FastClone.Wire

/-- What a claim consists of behind the password. -/
def trailer (capabilities : UInt8) (extensionString : Bytes) : Bytes :=
  [capabilities] ++ stringBytes extensionString

theorem writes_authClaim (p : Bytes) (c : UInt8) (e : Bytes) :
    Writes (encodeAuthClaim p c e) (True ∧ True ∧ Fits e.length) (p ++ trailer c e) :=
  (writes_put p).bind ((writes_put [c]).bind (codes_string e).writes)

theorem encode_claim {p e payload : Bytes} {c : UInt8}
    (h : (encodeAuthClaim p c e []).map Prod.snd = .ok payload) :
    payload = p ++ trailer c e ∧ Fits e.length := by
  by_cases he : Fits e.length
  · rw [(writes_authClaim p c e).done ⟨trivial, trivial, he⟩, List.nil_append] at h
    cases h
    exact ⟨rfl, he⟩
  · obtain ⟨err, herr⟩ := (writes_authClaim p c e).fails (fun hok => he hok.2.2) []
    rw [herr] at h
    cases h

theorem decode_accepts (payload q : Bytes) : (decodeAuthClaim payload q).1 = true ↔ q <+: payload := by
  have hbare : q <+: payload ↔ payload.take q.length = q := by
    rw [List.prefix_iff_eq_take]
    exact eq_comm
  rw [hbare]
  unfold decodeAuthClaim
  split
  · rename_i h
    refine ⟨fun hf => (nomatch hf), fun htake => ?_⟩
    rcases h with h | h
    · rw [← htake, List.length_take] at h
      omega
    · exact absurd htake h
  · rename_i h
    rw [not_or, not_not] at h
    refine ⟨fun _ => h.2, fun _ => ?_⟩
    dsimp only
    split <;> rfl

theorem extensionAt_trailer (p : Bytes) (c : UInt8) {e : Bytes} (he : Fits e.length) :
    extensionAt (p ++ trailer c e) (p.length + 1) = e := by
  have hpayload : p ++ trailer c e = (p ++ [c]) ++ (u16Bytes (UInt16.ofNat e.length) ++ e) := by
    unfold trailer stringBytes
    rw [List.append_assoc]
  have hlen : (p ++ [c]).length = p.length + 1 := by
    rw [List.length_append, List.length_singleton]
  have hbyte : ∀ i, (p ++ trailer c e).getD (p.length + 1 + i) 0 =
      (u16Bytes (UInt16.ofNat e.length) ++ e).getD i 0 := by
    intro i
    rw [hpayload, ← hlen, List.getD_eq_getElem?_getD, List.getD_eq_getElem?_getD,
      List.getElem?_append_right (Nat.le_add_right _ _), Nat.add_sub_cancel_left]
  have hext : extLenAt (p ++ trailer c e) (p.length + 1) = UInt16.ofNat e.length := by
    have h0 := hbyte 0
    rw [Nat.add_zero] at h0
    unfold extLenAt
    rw [h0, hbyte 1]
    exact u16_bytes _
  have htotal : (p ++ trailer c e).length = p.length + 1 + 2 + e.length := by
    rw [hpayload, List.length_append, hlen, List.length_append]
    show p.length + 1 + (2 + e.length) = _
    omega
  unfold extensionAt
  rw [hext, Fits.toNat he, htotal, if_pos (by omega)]
  dsimp only
  rw [if_pos (by omega), hpayload, ← List.drop_drop, ← hlen, List.drop_left]
  show ((u16Bytes (UInt16.ofNat e.length) ++ e).drop (u16Bytes (UInt16.ofNat e.length)).length).take e.length = e
  rw [List.drop_left, List.take_length]

theorem decode_recovers (p : Bytes) (c : UInt8) {e : Bytes} (he : Fits e.length) :
    (decodeAuthClaim (p ++ trailer c e) p).2 = { capabilities := c, extensionString := e } := by
  have htrailer : (trailer c e).length = 1 + (stringBytes e).length := List.length_append
  have hlen : p.length < (p ++ trailer c e).length := by
    rw [List.length_append]
    omega
  have hno : ¬ ((p ++ trailer c e).length < p.length ∨ (p ++ trailer c e).take p.length ≠ p) := by
    rw [not_or, not_not]
    exact ⟨by omega, List.take_left⟩
  have hcap : (p ++ trailer c e).getD p.length 0 = c := by
    rw [List.getD_eq_getElem?_getD, List.getElem?_append_right (Nat.le_refl _), Nat.sub_self]
    rfl
  unfold decodeAuthClaim
  rw [if_neg hno]
  dsimp only
  rw [if_pos hlen, hcap, extensionAt_trailer p c he]

/-! ### The sibling paths -/

theorem admits_checkAuth {p q payload : Bytes} {flags : UInt8}
    (h : (Message.checkAuth { password := p, flags }).encode = .ok payload) :
    admits q (.checkAuth payload) = true ↔ p = q := by
  have hok := encodable_of_encode h
  have hcodes := codes_checkAuth { password := p, flags }
  obtain rfl := encode_bytes h hcodes.writes
  have hread := hcodes.reads hok []
  rw [List.append_nil] at hread
  have hadmits : admits q (.checkAuth (checkAuthBytes { password := p, flags })) = decide (p = q) := by
    unfold admits
    dsimp only
    rw [hread]
  rw [hadmits]
  exact decide_eq_true_iff

theorem admits_sessionJoin {sid p q ext payload : Bytes} {capabilities : UInt8}
    (h : (Message.sessionJoin { sessionId := sid, password := p, capabilities, extensionString := ext }).encode =
      .ok payload) :
    admits q (.sessionJoin payload) = true ↔ p = q := by
  have hok := encodable_of_encode h
  have hcodes := codes_sessionJoin { sessionId := sid, password := p, capabilities, extensionString := ext }
  obtain rfl := encode_bytes h hcodes.writes
  have hread := hcodes.reads hok []
  rw [List.append_nil] at hread
  have hadmits : admits q (.sessionJoin (sessionJoinBytes
      { sessionId := sid, password := p, capabilities, extensionString := ext })) = decide (p = q) := by
    unfold admits
    dsimp only
    rw [hread]
  rw [hadmits]
  exact decide_eq_true_iff

/-! ### When the check is exact -/

/-- The check on the claim of a client with password `p` against the server's `q`: accepted
exactly for equal passwords, the fields then recovered, and the same clients admitted as on
the other two paths. -/
structure Exact (p q payload : Bytes) (c : UInt8) (e : Bytes) : Prop where
  accepts : (decodeAuthClaim payload q).1 = true ↔ p = q
  recovers : p = q → (decodeAuthClaim payload q).2 = { capabilities := c, extensionString := e }
  asCheckAuth : ∀ flags claim, (Message.checkAuth { password := p, flags }).encode = .ok claim →
    admits q (.auth payload) = admits q (.checkAuth claim)
  asSessionJoin : ∀ sid caps ext claim, (Message.sessionJoin
      { sessionId := sid, password := p, capabilities := caps, extensionString := ext }).encode = .ok claim →
    admits q (.auth payload) = admits q (.sessionJoin claim)

/-- **The `Auth` password check.** It is exact for two passwords that are equal, and for two
of which the server's is no prefix of the claim's bytes; for every other pair it admits a
client with the wrong password. -/
theorem auth_claim_exact_iff {p q e payload : Bytes} {c : UInt8}
    (h : (encodeAuthClaim p c e []).map Prod.snd = .ok payload) :
    Exact p q payload c e ↔ (p = q ∨ ¬ q <+: p ++ [c] ++ stringBytes e) := by
  obtain ⟨rfl, he⟩ := encode_claim h
  have hbytes : p ++ [c] ++ stringBytes e = p ++ trailer c e := List.append_assoc ..
  rw [hbytes, ← decode_accepts]
  constructor
  · intro hexact
    by_cases hpq : p = q
    · exact .inl hpq
    · exact .inr fun hacc => hpq (hexact.accepts.1 hacc)
  · intro hcond
    have haccepts : (decodeAuthClaim (p ++ trailer c e) q).1 = true ↔ p = q := by
      constructor
      · intro hacc
        rcases hcond with hpq | hno
        · exact hpq
        · exact absurd hacc hno
      · rintro rfl
        exact (decode_accepts _ _).2 (List.prefix_append ..)
    refine ⟨haccepts, ?_, fun flags claim hclaim => ?_, fun sid caps ext claim hclaim => ?_⟩
    · rintro rfl
      exact decode_recovers p c he
    · exact Bool.eq_iff_iff.2 (haccepts.trans (admits_checkAuth hclaim).symm)
    · exact Bool.eq_iff_iff.2 (haccepts.trans (admits_sessionJoin hclaim).symm)

/-- Passwords of which neither begins with the other. -/
theorem auth_claim_exact_apart :
    (encodeAuthClaim [97] 1 [] []).map Prod.snd = .ok [97, 1, 0, 0] ∧ Exact [97] [98] [97, 1, 0, 0] 1 [] :=
  ⟨by decide, (auth_claim_exact_iff (q := [98]) (by decide)).2 (by decide)⟩

/-- A client with password `ab` is admitted by a server with password `a`. -/
theorem prefix_password_admitted : ¬ ∀ (p q e payload : Bytes) (c : UInt8),
    (encodeAuthClaim p c e []).map Prod.snd = .ok payload →
      ((decodeAuthClaim payload q).1 = true ↔ p = q) := by
  intro hall
  have haccepted : (decodeAuthClaim [97, 98, 3, 0, 0] [97]).1 = true := by decide
  have heq := (hall [97, 98] [97] [] [97, 98, 3, 0, 0] 3 (by decide)).1 haccepted
  exact absurd heq (by decide)

end FastClone.AuthClaim
