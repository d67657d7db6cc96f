import FastClone.Spec.Wire

/-!
# Wire codec round trip

* `codes_message`: every encoder writes exactly when its message is `Encodable`, and
  its decoder reads the message back (block signatures truncated to `strongLen`).
* `produces_message`: whatever a decoder accepts can be encoded again and is already
  truncated.
* `wire_round_trip`: the two round trips, for every message and every payload.
-/

namespace FastClone.Wire

open Codec FastClone.Delta

/-! ### Words and strings -/

theorem and_ff (x : UInt8) : x &&& 255 = x := UInt8.and_neg_one

theorem u16_bytes (v : UInt16) :
    ((v &&& 0xFF).toUInt8).toUInt16 ||| ((((v >>> 8) &&& 0xFF).toUInt8).toUInt16 <<< 8) = v := by
  apply UInt16.eq_of_toBitVec_eq
  have h := ofLe_leByte v.toBitVec (n := 2) (by decide)
  simp [ofLe, leByte] at h
  simp [-UInt8.toUInt16_and, -UInt16.toUInt16_toUInt8, and_ff, h]

theorem u32_bytes (v : UInt32) :
    ((v &&& 0xFF).toUInt8).toUInt32 ||| ((((v >>> 8) &&& 0xFF).toUInt8).toUInt32 <<< 8) |||
      ((((v >>> 16) &&& 0xFF).toUInt8).toUInt32 <<< 16) |||
      ((((v >>> 24) &&& 0xFF).toUInt8).toUInt32 <<< 24) = v := by
  apply UInt32.eq_of_toBitVec_eq
  have h := ofLe_leByte v.toBitVec (n := 4) (by decide)
  simp [ofLe, leByte] at h
  simp [-UInt8.toUInt32_and, -UInt32.toUInt32_toUInt8, and_ff, h]

/-- The eight bytes that `AppendU64` appends. -/
def u64Bytes (v : UInt64) : Bytes :=
  (List.range 8).map fun i => ((v >>> UInt64.ofNat (i * 8)) &&& 0xFF).toUInt8

theorem u64_bytes (v : UInt64) :
    (List.range 8).foldl (fun value i =>
      value ||| (((u64Bytes v).getD i 0).toUInt64 <<< UInt64.ofNat (i * 8))) 0 = v := by
  apply UInt64.eq_of_toBitVec_eq
  have h := ofLe_leByte v.toBitVec (n := 8) (by decide)
  simp [ofLe, leByte] at h
  simp [u64Bytes, List.range, List.range.loop, -UInt8.toUInt64_and, -UInt64.toUInt64_toUInt8,
    and_ff, h]

/-- The two bytes that `AppendU16` appends. -/
def u16Bytes (v : UInt16) : Bytes := [(v &&& 0xFF).toUInt8, ((v >>> 8) &&& 0xFF).toUInt8]

theorem codes_u16 (v : UInt16) : Codes (appendU16 v) True (u16Bytes v) readU16 v :=
  (codes_bytes (v := u16Bytes v) rfl _).last (congrArg pure (u16_bytes v))

/-- The four bytes that `AppendU32` appends. -/
def u32Bytes (v : UInt32) : Bytes :=
  [(v &&& 0xFF).toUInt8, ((v >>> 8) &&& 0xFF).toUInt8, ((v >>> 16) &&& 0xFF).toUInt8,
    ((v >>> 24) &&& 0xFF).toUInt8]

theorem codes_u32 (v : UInt32) : Codes (appendU32 v) True (u32Bytes v) readU32 v :=
  (codes_bytes (v := u32Bytes v) rfl _).last (congrArg pure (u32_bytes v))

theorem codes_u64 (v : UInt64) : Codes (appendU64 v) True (u64Bytes v) readU64 v :=
  (codes_bytes (v := u64Bytes v) rfl _).last (congrArg pure (u64_bytes v))

theorem codes_i64 (v : Int64) : Codes (appendI64 v) True (u64Bytes v.toUInt64) readI64 v :=
  (codes_u64 v.toUInt64).last rfl

/-- Longer strings and lists do not fit their 16-bit length. -/
def Fits (n : ℕ) : Prop := n ≤ kUint16Max

theorem Fits.toNat {n : ℕ} (h : Fits n) : (UInt16.ofNat n).toNat = n := by
  unfold Fits kUint16Max at h
  rw [UInt16.toNat_ofNat']
  omega

theorem fits_toNat (v : UInt16) : Fits v.toNat := by
  have h := v.toNat_lt
  unfold Fits kUint16Max
  omega

/-- The bytes of a string: its length, then its bytes. -/
def stringBytes (s : Bytes) : Bytes := u16Bytes (UInt16.ofNat s.length) ++ s

theorem stringBytes_ne (s : Bytes) : stringBytes s ≠ [] := by
  simp [stringBytes, u16Bytes]

theorem codes_string (s : Bytes) :
    Codes (appendString s) (Fits s.length) (stringBytes s) readString s := by
  have h : Codes (appendString s) (Fits s.length ∧ True ∧ True) (stringBytes s) readString s :=
    Codes.check _ fun hfit => (codes_u16 _).bind (codes_bytes (Fits.toNat hfit).symm _)
  exact h.congr (by simp)

theorem produces_string : Produces readString fun s => Fits s.length := by
  refine produces_skip fun len => ?_
  intro buf s rest h
  rw [produces_take _ _ _ _ _ h]
  exact fits_toNat len

/-! ### Hashes -/

theorem length_toList (h : Hash) : h.toList.length = 16 := Vector.length_toList

/-- A strong hash cut to `n` bytes, the rest zero. -/
def truncate (n : ℕ) (h : Hash) : Hash :=
  Vector.ofFn fun i => if i.val < n then h.toList.getD i.val 0 else 0

theorem arrayOf_take (n : ℕ) (h : Hash) : arrayOf (h.toList.take n) = truncate n h := by
  unfold arrayOf truncate
  congr 1
  funext i
  rw [List.getD_eq_getElem?_getD, List.getElem?_take]
  split
  · rw [List.getD_eq_getElem?_getD]
  · rfl

theorem truncate_full (h : Hash) : truncate 16 h = h := by
  apply Vector.ext
  intro i hi
  simp [truncate]

theorem arrayOf_toList (h : Hash) : arrayOf h.toList = h := by
  have hfull := arrayOf_take 16 h
  rwa [List.take_of_length_le (Nat.le_of_eq (length_toList h)), truncate_full] at hfull

/-- Copying at most `n` bytes leaves the rest zero. -/
theorem truncate_arrayOf {n : ℕ} {bs : Bytes} (h : bs.length = n) :
    truncate n (arrayOf bs) = arrayOf bs := by
  apply Vector.ext
  intro i hi
  simp only [truncate, arrayOf, Vector.getElem_ofFn]
  split
  · simp [hi]
  · rw [List.getD_eq_getElem?_getD, List.getElem?_eq_none (by omega)]
    rfl

/-- A block signature as it travels. -/
def truncated (strongLen : UInt8) (bs : BlockSig) : BlockSig :=
  { bs with strong := truncate strongLen.toNat bs.strong }

/-! ### Conditions on messages -/

namespace Message

/-- The strings of a message. -/
def strings : Message → List Bytes
  | authOk info => info.sessionId :: info.extensionString :: info.serverAddrs.map (·.endpoint)
  | sessionJoin info => [info.sessionId, info.password, info.extensionString]
  | checkAuth info => [info.password]
  | manifestEntry entry => [entry.relativePath]
  | hashRequest relPath => [relPath]
  | hashResponse relPath _ => [relPath]
  | fileOpen relPath => [relPath]
  | fileBatchRequest relPaths => relPaths
  | fileBatchOpenResponse files => files.map (·.relativePath)
  | blockSigRequest relPath => [relPath]
  | blockSigResponse info => [info.relPath]
  | deltaError relPath => [relPath]
  | deltaRangeOpen req => [req.relPath]
  | fileRangeOpen req => [req.relPath]
  | fileRangeError relPath => [relPath]

/-- The lengths of its lists that carry a 16-bit count. -/
def counts : Message → List ℕ
  | authOk info => [info.serverAddrs.length]
  | fileBatchRequest relPaths => [relPaths.length]
  | fileBatchOpenResponse files => [files.length]
  | _ => []

/-- The strong length or the block list of a signature message is out of range. -/
def BadSignatures : Message → Prop
  | blockSigResponse info => 16 < info.sig.strongLen ∨ info.sig.blocks.length ≠ info.sig.blockCount.toNat
  | _ => False

/-- Some part of the message does not fit its field. -/
def Oversized (m : Message) : Prop :=
  (∃ s ∈ m.strings, kUint16Max < s.length) ∨ (∃ n ∈ m.counts, kUint16Max < n) ∨ m.BadSignatures

/-- The message as it travels: strong hashes are cut to `strongLen`. -/
def onWire : Message → Message
  | blockSigResponse info => blockSigResponse { info with sig := { info.sig with
      blocks := info.sig.blocks.map (truncated info.sig.strongLen) } }
  | m => m

/-- The negation of `Oversized`, in the form the rules produce. -/
def Encodable (m : Message) : Prop :=
  (∀ s ∈ m.strings, Fits s.length) ∧ (∀ n ∈ m.counts, Fits n) ∧ ¬ m.BadSignatures

theorem encodable_iff (m : Message) : m.Encodable ↔ ¬ m.Oversized := by
  unfold Encodable Oversized Fits
  simp only [not_or, not_exists, not_and, Nat.not_lt]

end Message

/-! ### Every encoder against its decoder -/

/-- A list behind a 16-bit count. -/
theorem codes_list {α : Type} {w : α → Stream Unit} {ok : α → Prop} {bs : α → Bytes} {r : Stream α}
    {xs : List α} (hfit : xs.length ≤ kUint16Max)
    (h : ∀ x ∈ xs, Codes (w x) (ok x) (bs x) r x) :
    Codes (putEach w xs) (∀ x ∈ xs, ok x) (xs.flatMap bs)
      (takeEach r (UInt16.ofNat xs.length).toNat) xs := by
  have heach := codes_each (g := id) xs h
  rwa [List.map_id, ← Fits.toNat hfit] at heach

/-- The bytes of one advertised endpoint. -/
def endpointBytes (addr : AdvertisedEndpoint) : Bytes :=
  stringBytes addr.endpoint ++ u16Bytes addr.nicGroup

theorem codes_endpoint (addr : AdvertisedEndpoint) : Codes
    (do appendString addr.endpoint; appendU16 addr.nicGroup) (Fits addr.endpoint.length ∧ True)
    (endpointBytes addr) readEndpoint addr :=
  (codes_string _).bind ((codes_u16 _).last rfl)

def authOkBytes (info : AuthOkInfo) : Bytes :=
  [info.role.toByte] ++ (stringBytes info.sessionId ++
    (u16Bytes (UInt16.ofNat info.serverAddrs.length) ++ (info.serverAddrs.flatMap endpointBytes ++
      ([info.capabilities] ++ stringBytes info.extensionString))))

def sessionJoinBytes (info : SessionJoinInfo) : Bytes :=
  stringBytes info.sessionId ++ (stringBytes info.password ++
    ([info.capabilities] ++ stringBytes info.extensionString))

def checkAuthBytes (info : CheckAuthInfo) : Bytes := stringBytes info.password ++ [info.flags]

theorem role_toByte (role : AuthOkRole) :
    (if role.toByte = AuthOkRole.joinAck.toByte then AuthOkRole.joinAck else .newSession) = role := by
  cases role <;> rfl

theorem codes_authOk (info : AuthOkInfo) : Codes (encodeAuthOk info)
    (Message.authOk info).Encodable (authOkBytes info) decodeAuthOk info := by
  refine Codes.congr ((codes_byte _ _).bind ((codes_string _).bind (Codes.check _ fun hcount =>
    (codes_u16 _).bind ((codes_list hcount fun addr _ => codes_endpoint addr).bind
      (((codes_byte _ _).ifMore (List.cons_ne_nil _ _) 0).bind
      (((codes_string _).ifMore (stringBytes_ne _) []).last ?_)))))) ?_
  · rw [role_toByte]
  · simp only [Message.Encodable, Message.strings, Message.counts, Message.BadSignatures, Fits]
    simp
    tauto

theorem codes_sessionJoin (info : SessionJoinInfo) : Codes (encodeSessionJoin info)
    (Message.sessionJoin info).Encodable (sessionJoinBytes info) decodeSessionJoin info := by
  refine Codes.congr ((codes_string _).bind ((codes_string _).bind
    (((codes_byte _ _).ifMore (List.cons_ne_nil _ _) 0).bind
      (((codes_string _).ifMore (stringBytes_ne _) []).last rfl)))) ?_
  simp [Message.Encodable, Message.strings, Message.counts, Message.BadSignatures]

theorem codes_checkAuth (info : CheckAuthInfo) : Codes (encodeCheckAuth info)
    (Message.checkAuth info).Encodable (checkAuthBytes info) decodeCheckAuth info := by
  refine Codes.congr ((codes_string _).bind
    (((codes_byte _ _).ifMore (List.cons_ne_nil _ _) 0).last rfl)) ?_
  simp [Message.Encodable, Message.strings, Message.counts, Message.BadSignatures]

theorem flag_ne (b : Bool) : (flag b != 0) = b := by
  cases b <;> rfl

theorem codes_manifestEntry (entry : FileEntry) : ∃ bs, Codes (encodeManifestEntry entry)
    (Message.manifestEntry entry).Encodable bs decodeManifestEntry entry := by
  refine ⟨_, Codes.congr ((codes_byte _ _).bind ((codes_string _).bind ((codes_u64 _).bind
    ((codes_i64 _).last ?_)))) ?_⟩
  · rw [flag_ne]
  · simp [Message.Encodable, Message.strings, Message.counts, Message.BadSignatures]

theorem codes_hashResponse (relPath : Bytes) (hash : Hash) : ∃ bs, Codes (encodeHashResponse relPath hash)
    (Message.hashResponse relPath hash).Encodable bs decodeHashResponse (relPath, hash) := by
  refine ⟨_, Codes.congr ((codes_string _).bind ((codes_bytes (length_toList _) _).last ?_)) ?_⟩
  · rw [arrayOf_toList]
  · simp [Message.Encodable, Message.strings, Message.counts, Message.BadSignatures]

theorem codes_fileBatchRequest (relPaths : List Bytes) : ∃ bs, Codes (encodeFileBatchRequest relPaths)
    (Message.fileBatchRequest relPaths).Encodable bs decodeFileBatchRequest relPaths := by
  refine ⟨_, Codes.congr (Codes.check _ fun hcount => (codes_u16 _).bind
    (codes_list hcount fun s _ => codes_string s)) ?_⟩
  simp only [Message.Encodable, Message.strings, Message.counts, Message.BadSignatures, Fits]
  simp
  tauto

theorem codes_batchFileRecord (file : BatchFileRecord) : Codes (appendBatchFileRecord file)
    (True ∧ Fits file.relativePath.length ∧ True ∧ True)
    ([flag file.ok] ++ (stringBytes file.relativePath ++
      (u64Bytes file.fileSize ++ u64Bytes file.mtimeNs.toUInt64)))
    readBatchFileRecord file := by
  refine (codes_byte _ _).bind ((codes_string _).bind ((codes_u64 _).bind ((codes_i64 _).last ?_)))
  rw [flag_ne]

theorem codes_fileBatchOpenResponse (files : List BatchFileRecord) :
    ∃ bs, Codes (encodeFileBatchOpenResponse files)
      (Message.fileBatchOpenResponse files).Encodable bs decodeFileBatchOpenResponse files := by
  refine ⟨_, Codes.congr (Codes.check _ fun hcount => (codes_u16 _).bind
    (codes_list hcount fun file _ => codes_batchFileRecord file)) ?_⟩
  simp only [Message.Encodable, Message.strings, Message.counts, Message.BadSignatures, Fits]
  simp
  tauto

theorem codes_blockSig {strongLen : UInt8} (hlen : strongLen ≤ 16) (bs : BlockSig) :
    Codes (appendBlockSig strongLen bs) (True ∧ True)
      (u32Bytes bs.weak ++ bs.strong.toList.take strongLen.toNat) (readBlockSig strongLen)
      (truncated strongLen bs) := by
  have hle : strongLen.toNat ≤ 16 := UInt8.le_iff_toNat_le.1 hlen
  refine (codes_u32 _).bind ((codes_bytes ?_ _).last ?_)
  · rw [List.length_take, length_toList]
    omega
  · rw [arrayOf_take]
    rfl

/-- The bytes of one block signature. -/
def blockSigBytes (strongLen : UInt8) (bs : BlockSig) : Bytes :=
  u32Bytes bs.weak ++ bs.strong.toList.take strongLen.toNat

def blockSigResponseBytes (info : BlockSigResponseInfo) : Bytes :=
  stringBytes info.relPath ++ (info.fileHash.toList ++ (u64Bytes info.sig.fileSize ++
    (u32Bytes info.sig.blockSize ++ (u32Bytes info.sig.blockCount ++ ([info.sig.strongLen] ++
      info.sig.blocks.flatMap (blockSigBytes info.sig.strongLen))))))

theorem codes_blockSigResponse (info : BlockSigResponseInfo) :
    Codes (encodeBlockSigResponse info) (Message.blockSigResponse info).Encodable
      (blockSigResponseBytes info) decodeBlockSigResponse { info with sig := { info.sig with
        blocks := info.sig.blocks.map (truncated info.sig.strongLen) } } := by
  have hblocks : info.sig.strongLen ≤ 16 → info.sig.blocks.length = info.sig.blockCount.toNat →
      Codes (putEach (appendBlockSig info.sig.strongLen) info.sig.blocks)
        (∀ bs ∈ info.sig.blocks, True ∧ True)
        (info.sig.blocks.flatMap (blockSigBytes info.sig.strongLen))
        (takeEach (readBlockSig info.sig.strongLen) info.sig.blockCount.toNat)
        (info.sig.blocks.map (truncated info.sig.strongLen)) := by
    intro hlen hcount
    rw [← hcount]
    exact codes_each _ fun bs _ => codes_blockSig hlen bs
  refine Codes.congr (Codes.check _ fun hlen => Codes.check _ fun hcount =>
    (codes_string _).bind ((codes_bytes (length_toList _) _).bind ((codes_u64 _).bind
      ((codes_u32 _).bind ((codes_u32 _).bind ((codes_byte _ _).bind
        (Codes.checked hlen _ ((hblocks hlen hcount).last ?_)))))))) ?_
  · rw [arrayOf_toList]
  · simp only [Message.Encodable, Message.strings, Message.counts, Message.BadSignatures, Fits]
    simp
    tauto

theorem codes_range (req : RangeRequest) : Codes (appendRange req)
    (Fits req.relPath.length ∧ True ∧ True)
    (stringBytes req.relPath ++ (u64Bytes req.offset ++ u64Bytes req.length)) readRange req :=
  (codes_string _).bind ((codes_u64 _).bind ((codes_u64 _).last rfl))

/-- **Every encoder and its decoder.** -/
theorem codes_message (m : Message) : ∃ bs, Codes m.write m.Encodable bs m.kind.read m.onWire := by
  -- the messages that are a bare path or a range
  have hpath : ∀ {w : Stream Unit} {r : Stream Bytes} {ok : Prop} (relPath : Bytes) (f : Bytes → Message),
      Codes w (Fits relPath.length) (stringBytes relPath) r relPath →
      (Fits relPath.length ↔ ok) → ∃ bs, Codes w ok bs (f <$> r) (f relPath) :=
    fun relPath f h hok => ⟨_, (h.map f).congr hok⟩
  cases m with
  | authOk info => exact ⟨_, (codes_authOk info).map _⟩
  | sessionJoin info => exact ⟨_, (codes_sessionJoin info).map _⟩
  | checkAuth info => exact ⟨_, (codes_checkAuth info).map _⟩
  | manifestEntry entry =>
    obtain ⟨bs, h⟩ := codes_manifestEntry entry
    exact ⟨bs, h.map _⟩
  | hashResponse relPath hash =>
    obtain ⟨bs, h⟩ := codes_hashResponse relPath hash
    exact ⟨bs, h.map _⟩
  | fileBatchRequest relPaths =>
    obtain ⟨bs, h⟩ := codes_fileBatchRequest relPaths
    exact ⟨bs, h.map _⟩
  | fileBatchOpenResponse files =>
    obtain ⟨bs, h⟩ := codes_fileBatchOpenResponse files
    exact ⟨bs, h.map _⟩
  | blockSigResponse info =>
    exact ⟨_, (codes_blockSigResponse info).map _⟩
  | deltaRangeOpen req =>
    refine ⟨_, ((codes_range req).map Message.deltaRangeOpen).congr ?_⟩
    simp [Message.Encodable, Message.strings, Message.counts, Message.BadSignatures]
  | fileRangeOpen req =>
    refine ⟨_, ((codes_range req).map Message.fileRangeOpen).congr ?_⟩
    simp [Message.Encodable, Message.strings, Message.counts, Message.BadSignatures]
  | hashRequest relPath | fileOpen relPath | blockSigRequest relPath | deltaError relPath
  | fileRangeError relPath =>
    refine hpath relPath _ (codes_string relPath) ?_
    simp [Message.Encodable, Message.strings, Message.counts, Message.BadSignatures]

/-! ### What a decoder accepts -/

/-- Encodable, and unchanged by the wire. -/
def Message.Settled (m : Message) : Prop := m.Encodable ∧ m.onWire = m

theorem produces_authOk : Produces decodeAuthOk fun info => (Message.authOk info).Settled := by
  have haddr : Produces readEndpoint fun addr => Fits addr.endpoint.length :=
    produces_string.bind fun s hs => produces_skip fun _ => produces_pure hs
  refine produces_skip fun roleByte => produces_string.bind fun sessionId hid =>
    produces_skip fun addrCount => (produces_takeEach haddr _).bind fun addrs haddrs =>
    produces_skip fun capabilities => (produces_string.ifMore (Nat.zero_le _)).bind fun ext hext =>
    produces_pure ⟨⟨?_, ?_, id⟩, rfl⟩
  · intro s hs
    rcases List.mem_cons.1 hs with rfl | hs
    · exact hid
    rcases List.mem_cons.1 hs with rfl | hs
    · exact hext
    · obtain ⟨addr, hmem, rfl⟩ := List.mem_map.1 hs
      exact haddrs.2 addr hmem
  · intro n hn
    rw [List.mem_singleton.1 hn, haddrs.1]
    exact fits_toNat addrCount

/-- Messages with one string, no counted list and no signatures. -/
theorem settled_of_string {m : Message} {s : Bytes} (hs : Fits s.length) (hm : m.strings = [s])
    (hc : m.counts = []) (hb : ¬ m.BadSignatures) (hw : m.onWire = m) : m.Settled := by
  refine ⟨⟨?_, ?_, hb⟩, hw⟩
  · rw [hm]
    intro t ht
    rw [List.mem_singleton.1 ht]
    exact hs
  · rw [hc]
    intro n hn
    cases hn

theorem produces_sessionJoin :
    Produces decodeSessionJoin fun info => (Message.sessionJoin info).Settled := by
  refine produces_string.bind fun sessionId hid => produces_string.bind fun password hpw =>
    produces_skip fun capabilities => (produces_string.ifMore (Nat.zero_le _)).bind fun ext hext =>
    produces_pure ⟨⟨?_, (by rintro n ⟨⟩), id⟩, rfl⟩
  intro s hs
  simp only [Message.strings, List.mem_cons, List.not_mem_nil, or_false] at hs
  rcases hs with rfl | rfl | rfl
  · exact hid
  · exact hpw
  · exact hext

theorem produces_checkAuth :
    Produces decodeCheckAuth fun info => (Message.checkAuth info).Settled :=
  produces_string.bind fun _ hs => produces_skip fun _ =>
    produces_pure (settled_of_string hs rfl rfl id rfl)

theorem produces_manifestEntry :
    Produces decodeManifestEntry fun entry => (Message.manifestEntry entry).Settled :=
  produces_skip fun _ => produces_string.bind fun _ hs => produces_skip fun _ => produces_skip fun _ =>
    produces_pure (settled_of_string hs rfl rfl id rfl)

theorem produces_hashResponse :
    Produces decodeHashResponse fun value => (Message.hashResponse value.1 value.2).Settled :=
  produces_string.bind fun _ hs => produces_skip fun _ =>
    produces_pure (settled_of_string hs rfl rfl id rfl)

theorem produces_range : Produces readRange fun req => Fits req.relPath.length :=
  produces_string.bind fun _ hs => produces_skip fun _ => produces_skip fun _ => produces_pure hs

theorem produces_fileBatchRequest :
    Produces decodeFileBatchRequest fun relPaths => (Message.fileBatchRequest relPaths).Settled := by
  refine produces_skip fun count => ?_
  intro buf relPaths rest h
  have hall := produces_takeEach produces_string _ _ _ _ h
  refine ⟨⟨hall.2, ?_, id⟩, rfl⟩
  intro n hn
  rw [List.mem_singleton.1 hn, hall.1]
  exact fits_toNat count

theorem produces_fileBatchOpenResponse :
    Produces decodeFileBatchOpenResponse fun files => (Message.fileBatchOpenResponse files).Settled := by
  have hrec : Produces readBatchFileRecord fun file => Fits file.relativePath.length :=
    produces_skip fun _ => produces_string.bind fun _ hs => produces_skip fun _ =>
      produces_skip fun _ => produces_pure hs
  refine produces_skip fun count => ?_
  intro buf files rest h
  have hall := produces_takeEach hrec _ _ _ _ h
  refine ⟨⟨?_, ?_, id⟩, rfl⟩
  · intro s hs
    obtain ⟨file, hmem, rfl⟩ := List.mem_map.1 hs
    exact hall.2 file hmem
  · intro n hn
    rw [List.mem_singleton.1 hn, hall.1]
    exact fits_toNat count

theorem produces_blockSigResponse :
    Produces decodeBlockSigResponse fun info => (Message.blockSigResponse info).Settled := by
  have hsig : ∀ strongLen, Produces (readBlockSig strongLen) fun bs => truncated strongLen bs = bs := by
    intro strongLen
    refine produces_skip fun weak => (produces_take _ _).bind fun strong hlen => produces_pure ?_
    unfold truncated
    rw [truncate_arrayOf hlen]
  refine produces_string.bind fun relPath hs => produces_skip fun fileHash => produces_skip fun fileSize =>
    produces_skip fun blockSize => produces_skip fun blockCount => produces_skip fun strongLen =>
    (produces_ensure _ _).bind fun _ hlen => (produces_takeEach (hsig strongLen) _).bind
      fun blocks hblocks => produces_pure ⟨⟨?_, (by rintro n ⟨⟩), ?_⟩, ?_⟩
  · intro t ht
    rw [List.mem_singleton.1 ht]
    exact hs
  · rintro (hlt | hne)
    · exact absurd hlen (UInt8.not_le.2 hlt)
    · exact hne hblocks.1
  · have hmap : blocks.map (truncated strongLen) = blocks := by
      conv_rhs => rw [← List.map_id blocks]
      exact List.map_congr_left hblocks.2
    simp only [Message.onWire, hmap]

/-- **Whatever a decoder accepts is settled.** -/
theorem produces_message (k : Kind) : Produces k.read fun m => m.kind = k ∧ m.Settled := by
  cases k with
  | authOk => exact produces_authOk.map fun _ h => ⟨rfl, h⟩
  | sessionJoin => exact produces_sessionJoin.map fun _ h => ⟨rfl, h⟩
  | checkAuth => exact produces_checkAuth.map fun _ h => ⟨rfl, h⟩
  | manifestEntry => exact produces_manifestEntry.map fun _ h => ⟨rfl, h⟩
  | hashResponse => exact produces_hashResponse.map fun _ h => ⟨rfl, h⟩
  | fileBatchRequest => exact produces_fileBatchRequest.map fun _ h => ⟨rfl, h⟩
  | fileBatchOpenResponse => exact produces_fileBatchOpenResponse.map fun _ h => ⟨rfl, h⟩
  | blockSigResponse => exact produces_blockSigResponse.map fun _ h => ⟨rfl, h⟩
  | deltaRangeOpen | fileRangeOpen =>
    exact produces_range.map fun _ h => ⟨rfl, settled_of_string h rfl rfl id rfl⟩
  | hashRequest | fileOpen | blockSigRequest | deltaError | fileRangeError =>
    exact produces_string.map fun _ h => ⟨rfl, settled_of_string h rfl rfl id rfl⟩

/-! ### The round trips -/

theorem encode_error_iff (m : Message) : (∃ e, m.encode = .error e) ↔ m.Oversized := by
  obtain ⟨bs, h⟩ := codes_message m
  unfold Message.encode
  constructor
  · rintro ⟨e, he⟩
    by_contra hno
    rw [h.writes.done (m.encodable_iff.2 hno)] at he
    cases he
  · intro hbig
    obtain ⟨e, he⟩ := h.writes.fails (fun hok => m.encodable_iff.1 hok hbig) []
    exact ⟨e, by rw [he]; rfl⟩

theorem encodable_of_encode {m : Message} {b : Bytes} (hb : m.encode = .ok b) : m.Encodable := by
  rw [m.encodable_iff]
  intro hbig
  obtain ⟨e, he⟩ := (encode_error_iff m).2 hbig
  rw [hb] at he
  cases he

/-- The payload is what the encoder is known to write. -/
theorem encode_bytes {m : Message} {b bs : Bytes} (hb : m.encode = .ok b)
    (h : Writes m.write m.Encodable bs) : b = bs := by
  have hok := encodable_of_encode hb
  unfold Message.encode at hb
  rw [h.done hok, List.nil_append] at hb
  cases hb
  rfl

theorem decode_encode {m : Message} {b : Bytes} (hb : m.encode = .ok b) :
    m.kind.decode b = .ok m.onWire := by
  obtain ⟨bs, h⟩ := codes_message m
  have hok := encodable_of_encode hb
  obtain rfl := encode_bytes hb h.writes
  have hread := h.reads hok []
  rw [List.append_nil] at hread
  unfold Kind.decode
  rw [hread]
  rfl

theorem settled_of_decode {k : Kind} {b : Bytes} {m : Message} (h : k.decode b = .ok m) :
    m.kind = k ∧ m.Settled := by
  unfold Kind.decode at h
  cases hr : k.read b with
  | error e =>
    rw [hr] at h
    cases h
  | ok p =>
    rw [hr] at h
    cases h
    exact produces_message k _ _ _ hr

/-- **Wire codec round trip.** Encoding a message throws exactly when some part of it does
not fit, and otherwise gives bytes that decode to the message (strong hashes truncated);
and what a decoder accepts is encoded again to bytes that decode to the same message. -/
theorem wire_round_trip :
    (∀ m : Message, ((∃ e, m.encode = .error e) ↔ m.Oversized) ∧
      (∀ b, m.encode = .ok b → m.kind.decode b = .ok m.onWire)) ∧
    (∀ (k : Kind) (b : Bytes) (m : Message), k.decode b = .ok m →
      ∃ b', m.encode = .ok b' ∧ k.decode b' = .ok m) := by
  refine ⟨fun m => ⟨encode_error_iff m, fun b hb => decode_encode hb⟩, fun k b m h => ?_⟩
  obtain ⟨rfl, hok, hwire⟩ := settled_of_decode h
  cases he : m.encode with
  | error e => exact absurd ((encode_error_iff m).1 ⟨e, he⟩) (m.encodable_iff.1 hok)
  | ok b' =>
    refine ⟨b', rfl, ?_⟩
    rw [decode_encode he, hwire]

end FastClone.Wire
