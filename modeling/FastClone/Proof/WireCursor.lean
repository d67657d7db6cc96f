import FastClone.Spec.WireCursor
import FastClone.Proof.Wire

/-!
# Decoders and truncated payloads

* `follows_read`: every cursor decoder does what its counterpart over the bytes that are
  left does, and never reads outside the payload.
* `stable_read`: a decoder without optional fields ignores what comes behind its message,
  so it rejects every cut of one.
* `cuts_read`: where a cut of an encoding is accepted, and as what.
-/

namespace FastClone.WireCursor

open Cursor FastClone.Delta
open FastClone.Wire (Hash arrayOf AuthOkRole AdvertisedEndpoint AuthOkInfo SessionJoinInfo CheckAuthInfo
  FileEntry BatchFileRecord BlockSigResponseInfo RangeRequest Message Kind)

/-! ### Inside the payload -/

theorem follows_readU16 : Follows readU16 Wire.readU16 := by
  refine follows_word (f := fun buf => (buf.getD 0 0).toUInt16 ||| ((buf.getD 1 0).toUInt16 <<< 8)) ?_
  intro buf cur hn
  have h0 := byteAt_run hn (i := 0) (by decide)
  have h1 := byteAt_run hn (i := 1) (by decide)
  rw [Nat.add_zero] at h0
  rw [bind_ok h0, bind_ok h1]
  rfl

theorem follows_readU32 : Follows readU32 Wire.readU32 := by
  refine follows_word (f := fun buf => (buf.getD 0 0).toUInt32 ||| ((buf.getD 1 0).toUInt32 <<< 8) |||
    ((buf.getD 2 0).toUInt32 <<< 16) ||| ((buf.getD 3 0).toUInt32 <<< 24)) ?_
  intro buf cur hn
  have h0 := byteAt_run hn (i := 0) (by decide)
  have h1 := byteAt_run hn (i := 1) (by decide)
  have h2 := byteAt_run hn (i := 2) (by decide)
  have h3 := byteAt_run hn (i := 3) (by decide)
  rw [Nat.add_zero] at h0
  rw [bind_ok h0, bind_ok h1, bind_ok h2, bind_ok h3]
  rfl

/-- The loop folds over the byte indices; each of them is inside. -/
theorem readU64Loop_run {buf : Bytes} {cur : ℕ} (hn : cur + 8 ≤ buf.length) :
    ∀ (is : List ℕ), (∀ i ∈ is, i < 8) → ∀ value, readU64Loop cur value is cur buf =
      .ok (is.foldl (fun value i =>
        value ||| ((((buf.drop cur).take 8).getD i 0).toUInt64 <<< UInt64.ofNat (i * 8))) value, cur) := by
  intro is
  induction is with
  | nil => intro _ value; rfl
  | cons i is ih =>
    intro hi value
    have hbyte := byteAt_run hn (hi i List.mem_cons_self)
    rw [readU64Loop, bind_ok hbyte, ih fun j hj => hi j (List.mem_cons_of_mem _ hj)]
    rfl

theorem follows_readU64 : Follows readU64 Wire.readU64 := by
  refine follows_word (f := fun buf => (List.range 8).foldl
    (fun value i => value ||| ((buf.getD i 0).toUInt64 <<< UInt64.ofNat (i * 8))) 0) ?_
  intro buf cur hn
  exact readU64Loop_run hn _ (fun i hi => List.mem_range.1 hi) 0

theorem follows_readI64 : Follows readI64 Wire.readI64 :=
  follows_readU64.bind fun value => follows_pure value.toInt64

theorem follows_copy (n : ℕ) (e : String) : Follows (copy n e) (Codec.take n e) := follows_slice n e

theorem follows_readString : Follows readString Wire.readString :=
  follows_readU16.bind fun _ => follows_copy _ _

theorem follows_readEndpoint : Follows readEndpoint Wire.readEndpoint :=
  follows_readString.bind fun _ => follows_readU16.bind fun _ => follows_pure _

theorem follows_decodeAuthOk : Follows decodeAuthOk Wire.decodeAuthOk :=
  (follows_popOr _).bind fun _ => follows_readString.bind fun _ => follows_readU16.bind fun _ =>
    (follows_readEndpoint.collect _).bind fun _ => (follows_ifMore_pop 0 "").bind fun _ =>
      (follows_readString.ifMore []).bind fun _ => follows_pure _

theorem follows_decodeSessionJoin : Follows decodeSessionJoin Wire.decodeSessionJoin :=
  follows_readString.bind fun _ => follows_readString.bind fun _ =>
    (follows_ifMore_pop 0 "").bind fun _ => (follows_readString.ifMore []).bind fun _ => follows_pure _

theorem follows_decodeCheckAuth : Follows decodeCheckAuth Wire.decodeCheckAuth :=
  follows_readString.bind fun _ => (follows_ifMore_pop 0 "").bind fun _ => follows_pure _

theorem follows_decodeManifestEntry : Follows decodeManifestEntry Wire.decodeManifestEntry :=
  (follows_popOr _).bind fun _ => follows_readString.bind fun _ => follows_readU64.bind fun _ =>
    follows_readI64.bind fun _ => follows_pure _

theorem follows_decodeHashResponse : Follows decodeHashResponse Wire.decodeHashResponse :=
  follows_readString.bind fun _ => (follows_copy _ _).bind fun _ => follows_pure _

theorem follows_decodeFileBatchRequest : Follows decodeFileBatchRequest Wire.decodeFileBatchRequest :=
  follows_readU16.bind fun _ => follows_readString.collect _

theorem follows_readBatchFileRecord : Follows readBatchFileRecord Wire.readBatchFileRecord :=
  (follows_popOr _).bind fun _ => follows_readString.bind fun _ => follows_readU64.bind fun _ =>
    follows_readI64.bind fun _ => follows_pure _

theorem follows_decodeFileBatchOpenResponse :
    Follows decodeFileBatchOpenResponse Wire.decodeFileBatchOpenResponse :=
  follows_readU16.bind fun _ => follows_readBatchFileRecord.collect _

theorem follows_readBlockSig (strongLen : UInt8) :
    Follows (readBlockSig strongLen) (Wire.readBlockSig strongLen) :=
  follows_readU32.bind fun _ => (follows_copy _ _).bind fun _ => follows_pure _

theorem follows_decodeBlockSigResponse : Follows decodeBlockSigResponse Wire.decodeBlockSigResponse :=
  follows_readString.bind fun _ => (follows_copy _ _).bind fun _ => follows_readU64.bind fun _ =>
    follows_readU32.bind fun _ => follows_readU32.bind fun _ => (follows_popOr _).bind fun strongLen =>
      (follows_ensure _ _).bind fun _ => ((follows_readBlockSig strongLen).collect _).bind fun _ =>
        follows_pure _

theorem follows_readRange : Follows readRange Wire.readRange :=
  follows_readString.bind fun _ => follows_readU64.bind fun _ => follows_readU64.bind fun _ =>
    follows_pure _

theorem follows_read (k : Kind) : Follows (read k) k.read := by
  cases k with
  | authOk => exact follows_decodeAuthOk.map _
  | sessionJoin => exact follows_decodeSessionJoin.map _
  | checkAuth => exact follows_decodeCheckAuth.map _
  | manifestEntry => exact follows_decodeManifestEntry.map _
  | hashResponse => exact follows_decodeHashResponse.map _
  | fileBatchRequest => exact follows_decodeFileBatchRequest.map _
  | fileBatchOpenResponse => exact follows_decodeFileBatchOpenResponse.map _
  | blockSigResponse => exact follows_decodeBlockSigResponse.map _
  | deltaRangeOpen | fileRangeOpen => exact follows_readRange.map _
  | hashRequest | fileOpen | blockSigRequest | deltaError | fileRangeError =>
    exact follows_readString.map _

/-- What the cursor decoder returns, against the decoder over the bytes that are left. -/
theorem decode_eq (k : Kind) (payload : Bytes) :
    decode k payload = (k.decode payload).mapError Fault.threw := by
  unfold decode Kind.decode
  rw [(follows_read k).run payload]
  cases k.read payload with
  | error e => rfl
  | ok out => rfl

/-! ### Cuts -/

theorem stable_readU16 : Codec.Stable Wire.readU16 :=
  (Codec.stable_take _ _).bind fun _ => Codec.stable_pure _

theorem stable_readU32 : Codec.Stable Wire.readU32 :=
  (Codec.stable_take _ _).bind fun _ => Codec.stable_pure _

theorem stable_readU64 : Codec.Stable Wire.readU64 :=
  (Codec.stable_take _ _).bind fun _ => Codec.stable_pure _

theorem stable_readI64 : Codec.Stable Wire.readI64 :=
  stable_readU64.bind fun _ => Codec.stable_pure _

theorem stable_readString : Codec.Stable Wire.readString :=
  stable_readU16.bind fun _ => Codec.stable_take _ _

theorem stable_readEndpoint : Codec.Stable Wire.readEndpoint :=
  stable_readString.bind fun _ => stable_readU16.bind fun _ => Codec.stable_pure _

theorem stable_readBatchFileRecord : Codec.Stable Wire.readBatchFileRecord :=
  (Codec.stable_next _).bind fun _ => stable_readString.bind fun _ => stable_readU64.bind fun _ =>
    stable_readI64.bind fun _ => Codec.stable_pure _

theorem stable_readBlockSig (strongLen : UInt8) : Codec.Stable (Wire.readBlockSig strongLen) :=
  stable_readU32.bind fun _ => (Codec.stable_take _ _).bind fun _ => Codec.stable_pure _

theorem stable_decodeBlockSigResponse : Codec.Stable Wire.decodeBlockSigResponse :=
  stable_readString.bind fun _ => (Codec.stable_take _ _).bind fun _ => stable_readU64.bind fun _ =>
    stable_readU32.bind fun _ => stable_readU32.bind fun _ => (Codec.stable_next _).bind fun strongLen =>
      (Codec.stable_ensure _ _).bind fun _ => ((stable_readBlockSig strongLen).takeEach _).bind fun _ =>
        Codec.stable_pure _

theorem stable_readRange : Codec.Stable Wire.readRange :=
  stable_readString.bind fun _ => stable_readU64.bind fun _ => stable_readU64.bind fun _ =>
    Codec.stable_pure _

/-- The messages whose payload may end early. -/
def HasOptional : Kind → Prop
  | .authOk | .sessionJoin | .checkAuth => True
  | _ => False

theorem stable_read {k : Kind} (h : ¬ HasOptional k) : Codec.Stable k.read := by
  cases k with
  | authOk | sessionJoin | checkAuth => exact absurd trivial h
  | manifestEntry =>
    refine Codec.Stable.map ?_ _
    exact (Codec.stable_next _).bind fun _ => stable_readString.bind fun _ =>
      stable_readU64.bind fun _ => stable_readI64.bind fun _ => Codec.stable_pure _
  | hashResponse =>
    refine Codec.Stable.map ?_ _
    exact stable_readString.bind fun _ => (Codec.stable_take _ _).bind fun _ => Codec.stable_pure _
  | fileBatchRequest =>
    refine Codec.Stable.map ?_ _
    exact stable_readU16.bind fun _ => stable_readString.takeEach _
  | fileBatchOpenResponse =>
    refine Codec.Stable.map ?_ _
    exact stable_readU16.bind fun _ => stable_readBatchFileRecord.takeEach _
  | blockSigResponse => exact stable_decodeBlockSigResponse.map _
  | deltaRangeOpen | fileRangeOpen => exact stable_readRange.map _
  | hashRequest | fileOpen | blockSigRequest | deltaError | fileRangeError =>
    exact stable_readString.map _

/-- What is left of a message when its payload is `missing` bytes short: the optional fields
behind a cut that falls right before one are at their defaults; any other cut leaves nothing. -/
def shortOf : Message → ℕ → Option Message
  | .authOk info, missing =>
    if missing = 1 + (2 + info.extensionString.length) then
      some (.authOk { info with capabilities := 0, extensionString := [] })
    else if missing = 2 + info.extensionString.length then
      some (.authOk { info with extensionString := [] })
    else none
  | .sessionJoin info, missing =>
    if missing = 1 + (2 + info.extensionString.length) then
      some (.sessionJoin { info with capabilities := 0, extensionString := [] })
    else if missing = 2 + info.extensionString.length then
      some (.sessionJoin { info with extensionString := [] })
    else none
  | .checkAuth info, missing =>
    if missing = 1 then some (.checkAuth { info with flags := 0 }) else none
  | _, _ => none

theorem stringBytes_length (s : Bytes) : (Wire.stringBytes s).length = 2 + s.length := by
  simp [Wire.stringBytes, Wire.u16Bytes]
  omega

/-- The two optional fields at the end of `AuthOk` and `SessionJoin`. -/
theorem cuts_trailer {α : Type} (capabilities : UInt8) {ext : Bytes} (hext : Wire.Fits ext.length)
    (f : UInt8 → Bytes → α) :
    Codec.Cuts (do
        let c ← Codec.ifMore 0 (Codec.next "")
        let e ← Codec.ifMore [] Wire.readString
        pure (f c e)) ([capabilities] ++ Wire.stringBytes ext)
      (fun missing => if missing = 1 + (2 + ext.length) then some (f 0 []) else
        if missing = 2 + ext.length then some (f capabilities []) else none) := by
  have hstring := (Wire.codes_string ext).reads hext
  have hlast : Codec.Cuts (do
      let e ← Codec.ifMore [] Wire.readString
      pure (f capabilities e)) (Wire.stringBytes ext ++ [])
      (fun missing => if missing = (Wire.stringBytes ext ++ []).length then some (f capabilities [])
        else none) :=
    Codec.Cuts.optional stable_readString hstring (Wire.stringBytes_ne ext) rfl (Codec.cuts_nil _ _)
      fun _ _ => rfl
  rw [List.append_nil, stringBytes_length] at hlast
  have hboth := Codec.Cuts.optional (d := 0)
    (k := fun c => Codec.ifMore [] Wire.readString >>= fun e => pure (f c e))
    (Codec.stable_next "") (Codec.reads_next capabilities "") (List.cons_ne_nil _ _) rfl hlast ?_
  · rw [List.length_append, stringBytes_length] at hboth
    exact hboth
  · intro n hn
    rw [stringBytes_length] at hn
    exact if_neg (by omega)

theorem cuts_authOk {info : AuthOkInfo} (h : (Message.authOk info).Encodable) :
    Codec.Cuts Wire.decodeAuthOk (Wire.authOkBytes info) (fun missing =>
      if missing = 1 + (2 + info.extensionString.length) then
        some { info with capabilities := 0, extensionString := [] }
      else if missing = 2 + info.extensionString.length then some { info with extensionString := [] }
      else none) := by
  obtain ⟨hstrings, hcounts, -⟩ := h
  simp only [Message.strings, Message.counts, List.mem_cons, List.mem_map, forall_eq_or_imp,
    forall_exists_index, and_imp, forall_apply_eq_imp_iff₂, List.not_mem_nil, IsEmpty.forall_iff,
    implies_true, and_true] at hstrings hcounts
  obtain ⟨hsid, hext, haddrs⟩ := hstrings
  have heach := Codec.reads_takeEach (g := id) info.serverAddrs fun addr hmem =>
    (Wire.codes_endpoint addr).reads ⟨haddrs addr hmem, trivial⟩
  rw [List.map_id, ← Wire.Fits.toNat hcounts] at heach
  have htrailer := cuts_trailer info.capabilities hext fun c e =>
    ({ info with capabilities := c, extensionString := e } : AuthOkInfo)
  refine Codec.Cuts.bind (Codec.stable_next _) (Codec.reads_next _ _)
    (Codec.Cuts.bind stable_readString ((Wire.codes_string _).reads hsid)
    (Codec.Cuts.bind stable_readU16 ((Wire.codes_u16 _).reads trivial)
    (Codec.Cuts.bind (stable_readEndpoint.takeEach _) heach ?_ ?_) ?_) ?_) ?_
  · rw [Wire.role_toByte]
    exact htrailer
  -- a cut before the trailer leaves more than the trailer missing
  all_goals
    intro n hn
    simp only [List.length_append, stringBytes_length, List.length_singleton] at hn
    rw [if_neg (by omega), if_neg (by omega)]

theorem cuts_sessionJoin {info : SessionJoinInfo} (h : (Message.sessionJoin info).Encodable) :
    Codec.Cuts Wire.decodeSessionJoin (Wire.sessionJoinBytes info) (fun missing =>
      if missing = 1 + (2 + info.extensionString.length) then
        some { info with capabilities := 0, extensionString := [] }
      else if missing = 2 + info.extensionString.length then some { info with extensionString := [] }
      else none) := by
  obtain ⟨hstrings, -, -⟩ := h
  simp only [Message.strings, List.mem_cons, forall_eq_or_imp, List.not_mem_nil,
    IsEmpty.forall_iff, implies_true, and_true] at hstrings
  obtain ⟨hsid, hpass, hext⟩ := hstrings
  have htrailer := cuts_trailer info.capabilities hext fun c e =>
    ({ info with capabilities := c, extensionString := e } : SessionJoinInfo)
  refine Codec.Cuts.bind stable_readString ((Wire.codes_string _).reads hsid)
    (Codec.Cuts.bind stable_readString ((Wire.codes_string _).reads hpass) htrailer ?_) ?_
  all_goals
    intro n hn
    simp only [List.length_append, stringBytes_length, List.length_singleton] at hn
    rw [if_neg (by omega), if_neg (by omega)]

theorem cuts_checkAuth {info : CheckAuthInfo} (h : (Message.checkAuth info).Encodable) :
    Codec.Cuts Wire.decodeCheckAuth (Wire.checkAuthBytes info) (fun missing =>
      if missing = 1 then some { info with flags := 0 } else none) := by
  obtain ⟨hstrings, -, -⟩ := h
  have hpass : Wire.Fits info.password.length := hstrings _ List.mem_cons_self
  have hflags : Codec.Cuts (Codec.ifMore 0 (Codec.next "") >>= fun flags =>
      pure ({ info with flags } : CheckAuthInfo)) ([info.flags] ++ [])
      (fun missing => if missing = ([info.flags] ++ []).length then some { info with flags := 0 }
        else none) :=
    Codec.Cuts.optional (Codec.stable_next "") (Codec.reads_next _ _) (List.cons_ne_nil _ _) rfl
      (Codec.cuts_nil _ _) fun _ _ => rfl
  rw [List.append_nil] at hflags
  refine Codec.Cuts.bind stable_readString ((Wire.codes_string _).reads hpass) hflags ?_
  intro n hn
  rw [List.length_singleton] at hn
  exact if_neg (by omega)

theorem shortOf_none {m : Message} (h : ¬ HasOptional m.kind) (missing : ℕ) :
    shortOf m missing = none := by
  cases m with
  | authOk _ | sessionJoin _ | checkAuth _ => exact absurd trivial h
  | _ => rfl

/-- Every cut of an encoding, at every length. -/
theorem cuts_read {m : Message} {payload : Bytes} (hm : m.encode = .ok payload) :
    Codec.Cuts m.kind.read payload (shortOf m) := by
  have hok := Wire.encodable_of_encode hm
  by_cases hopt : HasOptional m.kind
  · cases m with
    | authOk info =>
      obtain rfl := Wire.encode_bytes hm (Wire.codes_authOk info).writes
      intro p q hq hbs
      have hcut := (cuts_authOk hok).map Message.authOk p q hq hbs
      simp only [apply_ite (Option.map Message.authOk), Option.map_some, Option.map_none] at hcut
      exact hcut
    | sessionJoin info =>
      obtain rfl := Wire.encode_bytes hm (Wire.codes_sessionJoin info).writes
      intro p q hq hbs
      have hcut := (cuts_sessionJoin hok).map Message.sessionJoin p q hq hbs
      simp only [apply_ite (Option.map Message.sessionJoin), Option.map_some, Option.map_none] at hcut
      exact hcut
    | checkAuth info =>
      obtain rfl := Wire.encode_bytes hm (Wire.codes_checkAuth info).writes
      intro p q hq hbs
      have hcut := (cuts_checkAuth hok).map Message.checkAuth p q hq hbs
      simp only [apply_ite (Option.map Message.checkAuth), Option.map_some, Option.map_none] at hcut
      exact hcut
    | _ => exact absurd hopt id
  · obtain ⟨bs, hcodes⟩ := Wire.codes_message m
    obtain rfl := Wire.encode_bytes hm hcodes.writes
    intro p q hq hbs
    rw [shortOf_none hopt]
    exact (stable_read hopt).rejects (hcodes.reads hok) hq hbs

/-- **Decoders reject truncation.** On every payload a decoder stays inside it and returns a
message or throws. A strict prefix of an encoding is thrown out, unless the cut falls right
before an optional field: then the message comes back with the missing fields at their
defaults. -/
theorem decoders_reject_truncation :
    (∀ (k : Kind) (payload : Bytes),
      (∃ m, decode k payload = .ok m) ∨ ∃ e, decode k payload = .error (.threw e)) ∧
    (∀ (m : Message) (payload : Bytes), m.encode = .ok payload →
      ∀ cut, cut <+: payload → cut ≠ payload →
        match shortOf m (payload.length - cut.length) with
        | some m' => decode m.kind cut = .ok m'
        | none => ∃ e, decode m.kind cut = .error (.threw e)) := by
  constructor
  · intro k payload
    rw [decode_eq]
    cases k.decode payload with
    | error e => exact .inr ⟨e, rfl⟩
    | ok m => exact .inl ⟨m, rfl⟩
  · rintro m payload hm cut ⟨q, hq⟩ hne
    have hq' : q ≠ [] := by
      rintro rfl
      exact hne (by rw [← hq, List.append_nil])
    have hlen : payload.length - cut.length = q.length := by
      rw [← hq, List.length_append]
      omega
    have hcut := cuts_read hm cut q hq' hq.symm
    rw [hlen, decode_eq]
    unfold Kind.decode
    cases hshort : shortOf m q.length with
    | none =>
      rw [hshort] at hcut
      obtain ⟨e, he⟩ := hcut
      exact ⟨e, by rw [he]; rfl⟩
    | some m' =>
      rw [hshort] at hcut
      show ((m.kind.read cut).map Prod.fst).mapError Fault.threw = _
      rw [hcut]
      rfl

/-- A `CheckAuth` without its flags byte. -/
theorem checkAuth_without_flags :
    (Message.checkAuth { password := [65], flags := 7 }).encode = .ok [1, 0, 65, 7] ∧
      decode .checkAuth [1, 0, 65] = .ok (.checkAuth { password := [65], flags := 0 }) :=
  ⟨by decide, decoders_reject_truncation.2 (.checkAuth { password := [65], flags := 7 }) [1, 0, 65, 7]
    (by decide) [1, 0, 65] (by decide) (by decide)⟩

end FastClone.WireCursor
