import LkChain.Foundation.Streams
import LkChain.P2P.Frames

/-!
# What a sequence of reads delivers

`Read` follows a source of chunks: it takes from `recvBuffer`, if anything is left there, and else
from the next frame. It does not report what it takes from `recvBuffer`. So nothing gets lost
exactly if no chunk is left over when the next read comes.
-/

namespace LkChain.P2P.Streaming

open Foundation Streams
open Validators.ParseTx (Bytes)
open Frames

/-- The bytes on a connection are well-formed frames that decode to these chunks. -/
inductive Arrives (setup : Setup) : Nonce → Bytes → List Bytes → Prop
  | nil (nonce : Nonce) : Arrives setup nonce [] []
  | encrypted {nonce : Nonce} {sealedFrame frame rest : Bytes} {chunks : List Bytes}
      (hmode : setup.frameEncodeType = .encrypt) (hlength : sealedFrame.length = sealedFrameSize)
      (hopen : setup.box.openBox sealedFrame nonce = some frame)
      (hbound : uint32 frame ≤ dataMaxSize) (hrest : Arrives setup (incr2Nonce nonce) rest chunks) :
      Arrives setup nonce (sealedFrame ++ rest)
        ((frame.drop frameHeaderSize).take (uint32 frame) :: chunks)
  | compressed {nonce : Nonce} {frameHdr encodedChunk chunk rest : Bytes} {chunks : List Bytes}
      (hmode : setup.frameEncodeType = .compressed) (hheader : frameHdr.length = frameHeaderSize)
      (hlength : uint32 frameHdr = encodedChunk.length)
      (hbound : encodedChunk.length ≤ dataMaxSize)
      (hdecode : setup.snappy.decode encodedChunk = .ok chunk)
      (hchunk : chunk.length ≤ dataMaxSize) (hrest : Arrives setup nonce rest chunks) :
      Arrives setup nonce (frameHdr ++ (encodedChunk ++ rest)) (chunk :: chunks)

/-- A connection that has kept what is left of a source, with the chunks on their way. -/
structure Shows (setup : Setup) (sc : SecretConnection) (source : Source UInt8) : Prop where
  left : sc.recvBuffer = source.left
  arrives : Arrives setup sc.recvNonce sc.conn.incoming source.chunks

/-- What `Read` reports: nothing of what was left. -/
def counted (source : Source UInt8) (size : ℕ) : Bytes :=
  if source.left = [] then source.taken size else []

theorem counted_sublist (source : Source UInt8) (size : ℕ) :
    (counted source size).Sublist (source.taken size) := by
  unfold counted
  split_ifs
  · exact List.Sublist.refl _
  · exact List.nil_sublist _

/-! ## One read -/

section Read

variable {setup : Setup} {sc : SecretConnection}

theorem readFull_append {conn : Conn} {bytes rest : Bytes} {size : ℕ}
    (hincoming : conn.incoming = bytes ++ rest) (hsize : bytes.length = size) :
    conn.readFull size = ({ conn with incoming := rest }, .ok bytes) := by
  unfold Conn.readFull
  rw [hincoming, if_pos (by rw [List.length_append]; omega), ← hsize, List.drop_left,
    List.take_left]

theorem readFull_nil {conn : Conn} {size : ℕ} (hincoming : conn.incoming = []) (hsize : 0 < size) :
    conn.readFull size = (conn, .error .eof) := by
  unfold Conn.readFull
  rw [hincoming, if_neg (by simpa using hsize.ne'), if_pos rfl]

theorem take_copy (destination source : Bytes) :
    (copy destination source).take (min destination.length source.length) =
      source.take destination.length := by
  unfold copy
  rw [← List.length_take, List.take_left]

theorem drop_min_length {α : Type} (size : ℕ) (list : List α) :
    list.drop (min size list.length) = list.drop size := by
  cases Nat.le_total size list.length with
  | inl hle => rw [Nat.min_eq_left hle]
  | inr hge => rw [Nat.min_eq_right hge, List.drop_length, List.drop_of_length_le hge]

theorem readChunk_sealed {sealedFrame frame rest : Bytes}
    (hmode : setup.frameEncodeType = .encrypt) (hincoming : sc.conn.incoming = sealedFrame ++ rest)
    (hlength : sealedFrame.length = sealedFrameSize)
    (hopen : setup.box.openBox sealedFrame sc.recvNonce = some frame)
    (hbound : uint32 frame ≤ dataMaxSize) :
    sc.readChunk setup =
      ({ sc with
        conn := { sc.conn with incoming := rest }
        recvNonce := incr2Nonce sc.recvNonce },
        .ok ((frame.drop frameHeaderSize).take (uint32 frame))) := by
  unfold SecretConnection.readChunk
  rw [hmode]
  dsimp only
  rw [readFull_append hincoming hlength]
  dsimp only
  rw [hopen]
  exact if_neg (Nat.not_lt.mpr hbound)

theorem readChunk_compressed {frameHdr encodedChunk chunk rest : Bytes}
    (hmode : setup.frameEncodeType = .compressed)
    (hincoming : sc.conn.incoming = frameHdr ++ (encodedChunk ++ rest))
    (hheader : frameHdr.length = frameHeaderSize) (hlength : uint32 frameHdr = encodedChunk.length)
    (hbound : encodedChunk.length ≤ dataMaxSize)
    (hdecode : setup.snappy.decode encodedChunk = .ok chunk) (hchunk : chunk.length ≤ dataMaxSize) :
    sc.readChunk setup = ({ sc with conn := { sc.conn with incoming := rest } }, .ok chunk) := by
  unfold SecretConnection.readChunk
  rw [hmode]
  dsimp only
  rw [readFull_append hincoming hheader]
  dsimp only
  rw [hlength, if_neg (Nat.not_lt.mpr hbound), readFull_append rfl rfl]
  dsimp only
  rw [hdecode]
  exact if_neg (Nat.not_lt.mpr hchunk)

theorem readChunk_too_long {frameHdr rest : Bytes} (hmode : setup.frameEncodeType = .compressed)
    (hincoming : sc.conn.incoming = frameHdr ++ rest) (hheader : frameHdr.length = frameHeaderSize)
    (hlength : dataMaxSize < uint32 frameHdr) :
    sc.readChunk setup = ({ sc with conn := { sc.conn with incoming := rest } },
      .error (.text "chunkLength is greater than dataMaxSize")) := by
  unfold SecretConnection.readChunk
  rw [hmode]
  dsimp only
  rw [readFull_append hincoming hheader]
  exact if_pos hlength

theorem readChunk_of_arrives {chunk : Bytes} {chunks : List Bytes}
    (harrives : Arrives setup sc.recvNonce sc.conn.incoming (chunk :: chunks)) :
    ∃ after, sc.readChunk setup = (after, .ok chunk) ∧
      Arrives setup after.recvNonce after.conn.incoming chunks := by
  generalize hincoming : sc.conn.incoming = incoming at harrives
  cases harrives with
  | encrypted hmode hlength hopen hbound hrest =>
    exact ⟨_, readChunk_sealed hmode hincoming hlength hopen hbound, hrest⟩
  | compressed hmode hheader hlength hbound hdecode hchunk hrest =>
    exact ⟨_, readChunk_compressed hmode hincoming hheader hlength hbound hdecode hchunk, hrest⟩

theorem readChunk_of_ended (hincoming : sc.conn.incoming = []) :
    sc.readChunk setup = (sc, .error .eof) := by
  unfold SecretConnection.readChunk
  rw [readFull_nil hincoming (by decide), readFull_nil hincoming (by decide)]
  cases setup.frameEncodeType with
  | encrypt => rfl
  | compressed => rfl

theorem read_of_left (hleft : sc.recvBuffer ≠ []) (data : Bytes) :
    sc.read setup data =
      ⟨{ sc with recvBuffer := sc.recvBuffer.drop (min data.length sc.recvBuffer.length) },
        copy data sc.recvBuffer, 0, none⟩ :=
  if_pos (List.length_pos_iff.mpr hleft)

theorem read_of_error {after : SecretConnection} {error : ReadError} (hleft : sc.recvBuffer = [])
    (hchunk : sc.readChunk setup = (after, .error error)) (data : Bytes) :
    sc.read setup data = ⟨after, data, 0, some error⟩ := by
  unfold SecretConnection.read
  rw [hleft, List.length_nil, if_neg (Nat.lt_irrefl 0), hchunk]

theorem read_of_chunk {after : SecretConnection} {chunk : Bytes} (hleft : sc.recvBuffer = [])
    (hchunk : sc.readChunk setup = (after, .ok chunk)) (data : Bytes) :
    sc.read setup data =
      ⟨{ after with recvBuffer := chunk.drop (min data.length chunk.length) }, copy data chunk,
        min data.length chunk.length, none⟩ := by
  unfold SecretConnection.read
  rw [hleft, List.length_nil, if_neg (Nat.lt_irrefl 0), hchunk]

theorem read_of_shows {source : Source UInt8} (hshows : Shows setup sc source) (data : Bytes) :
    (if (sc.read setup data).err = none then (sc.read setup data).delivered else []) =
        counted source data.length ∧
      Shows setup (sc.read setup data).sc (source.advance data.length) := by
  rcases source with ⟨left, chunks⟩
  rcases hshows with ⟨hleft, harrives⟩
  dsimp only at hleft harrives
  cases left with
  | cons byte left =>
    rw [read_of_left (by rw [hleft]; exact List.cons_ne_nil byte left), hleft]
    exact ⟨rfl, drop_min_length _ _, harrives⟩
  | nil =>
    cases chunks with
    | nil =>
      have hended : sc.conn.incoming = [] := by
        generalize sc.conn.incoming = incoming at harrives
        cases harrives
        rfl
      rw [read_of_error hleft (readChunk_of_ended hended)]
      exact ⟨rfl, hleft, harrives⟩
    | cons chunk chunks =>
      obtain ⟨after, hchunk, hafter⟩ := readChunk_of_arrives harrives
      rw [read_of_chunk hleft hchunk]
      exact ⟨take_copy data chunk, drop_min_length _ _, hafter⟩

end Read

/-! ## The frames of `Write` -/

section Emitted

variable {setup : Setup}

theorem uint32_putUint32 {value : ℕ} (hvalue : value < 2 ^ 32) (rest : Bytes) :
    uint32 (putUint32 value ++ rest) = value := by
  simp only [uint32, putUint32, List.cons_append, List.nil_append, List.take_succ_cons,
    List.take_zero, List.foldl_cons, List.foldl_nil, UInt8.toNat_ofNat']
  omega

theorem length_header (setup : Setup) (length : ℕ) :
    (header setup length).length = frameHeaderSize := rfl

theorem uint32_header {length : ℕ} (hlength : length < 2 ^ 32) (rest : Bytes) :
    uint32 (header setup length ++ rest) = length := by
  unfold header
  rw [List.append_assoc]
  exact uint32_putUint32 hlength _

theorem uint32_encoded {chunk : Bytes} (hchunk : chunk.length ≤ dataMaxSize) :
    uint32 (header setup (setup.snappy.encode chunk).length) =
      (setup.snappy.encode chunk).length := by
  have hbound := setup.snappy.length_encode_le chunk
  unfold dataMaxSize at hchunk
  rw [← List.append_nil (header setup _)]
  apply uint32_header
  omega

theorem frame_encrypt {chunk : Bytes} (hmode : setup.frameEncodeType = .encrypt) :
    frame setup chunk = header setup chunk.length ++
      (chunk ++ List.replicate (dataMaxSize - chunk.length) 0) := by
  unfold frame
  rw [hmode, List.append_assoc]

theorem frame_compressed {chunk : Bytes} (hmode : setup.frameEncodeType = .compressed) :
    frame setup chunk =
      header setup (setup.snappy.encode chunk).length ++ setup.snappy.encode chunk := by
  unfold frame
  rw [hmode]

/-- What `Write` sends for a chunk. -/
def packet (setup : Setup) (nonce : Nonce) (chunk : Bytes) : Bytes :=
  match setup.frameEncodeType with
  | .encrypt => setup.box.sealBox (frame setup chunk) nonce
  | .compressed => frame setup chunk

/-- The nonce after a chunk. Compressed frames are not sealed. -/
def nextNonce (setup : Setup) (nonce : Nonce) : Nonce :=
  match setup.frameEncodeType with
  | .encrypt => incr2Nonce nonce
  | .compressed => nonce

/-- What `Write` sends for some chunks. -/
def emitted (setup : Setup) : Nonce → List Bytes → Bytes
  | _, [] => []
  | nonce, chunk :: chunks => packet setup nonce chunk ++ emitted setup
      (nextNonce setup nonce) chunks

theorem arrives_compressed {nonce : Nonce} {chunk rest : Bytes} {chunks : List Bytes}
    (hmode : setup.frameEncodeType = .compressed) (hchunk : chunk.length ≤ dataMaxSize)
    (hencoded : (setup.snappy.encode chunk).length ≤ dataMaxSize)
    (hrest : Arrives setup nonce rest chunks) :
    Arrives setup nonce (frame setup chunk ++ rest) (chunk :: chunks) := by
  rw [frame_compressed hmode, List.append_assoc]
  exact .compressed hmode (length_header _ _) (uint32_encoded hchunk) hencoded
    (setup.snappy.decode_encode chunk) hchunk hrest

theorem arrives_encrypted {nonce : Nonce} {chunk rest : Bytes} {chunks : List Bytes}
    (hmode : setup.frameEncodeType = .encrypt) (hchunk : chunk.length ≤ dataMaxSize)
    (hrest : Arrives setup (incr2Nonce nonce) rest chunks) :
    Arrives setup nonce (setup.box.sealBox (frame setup chunk) nonce ++ rest)
      (chunk :: chunks) := by
  have hframe : frame setup chunk = header setup chunk.length ++
      (chunk ++ List.replicate (dataMaxSize - chunk.length) 0) := frame_encrypt hmode
  have hlength : uint32 (frame setup chunk) = chunk.length := by
    rw [hframe]
    apply uint32_header
    exact hchunk.trans_lt (by decide)
  have hdrop : ((frame setup chunk).drop frameHeaderSize).take (uint32 (frame setup chunk)) =
      chunk := by
    rw [hlength, hframe, List.drop_left' (length_header _ _), List.take_left]
  have hsealed : (setup.box.sealBox (frame setup chunk) nonce).length = sealedFrameSize := by
    rw [setup.box.length_sealBox, hframe, List.length_append, List.length_append,
      List.length_replicate, length_header]
    unfold sealedFrameSize totalFrameSize
    omega
  have harrives := Arrives.encrypted hmode hsealed (setup.box.openBox_sealBox _ nonce)
    (hlength.trans_le hchunk) hrest
  rwa [hdrop] at harrives

theorem arrives_packet {nonce : Nonce} {chunk rest : Bytes} {chunks : List Bytes}
    (hchunk : chunk.length ≤ dataMaxSize)
    (hencoded : setup.frameEncodeType = .compressed →
      (setup.snappy.encode chunk).length ≤ dataMaxSize)
    (hrest : Arrives setup (nextNonce setup nonce) rest chunks) :
    Arrives setup nonce (packet setup nonce chunk ++ rest) (chunk :: chunks) := by
  unfold packet
  unfold nextNonce at hrest
  cases hmode : setup.frameEncodeType with
  | encrypt =>
    rw [hmode] at hrest
    exact arrives_encrypted hmode hchunk hrest
  | compressed =>
    rw [hmode] at hrest
    exact arrives_compressed hmode hchunk (hencoded hmode) hrest

/-- The frames of `Write` are well formed when the compressor did not make them too long. -/
theorem arrives_emitted (nonce : Nonce) {chunks : List Bytes}
    (hchunks : ∀ chunk ∈ chunks, chunk.length ≤ dataMaxSize)
    (hencoded : setup.frameEncodeType = .compressed →
      ∀ chunk ∈ chunks, (setup.snappy.encode chunk).length ≤ dataMaxSize) :
    Arrives setup nonce (emitted setup nonce chunks) chunks := by
  induction chunks generalizing nonce with
  | nil => exact .nil nonce
  | cons chunk chunks ih =>
    rw [List.forall_mem_cons] at hchunks
    apply arrives_packet hchunks.1 (fun hmode ↦ hencoded hmode chunk List.mem_cons_self)
    exact ih (nextNonce setup nonce) hchunks.2 fun hmode other hother ↦
      hencoded hmode other (List.mem_cons_of_mem _ hother)

end Emitted

/-! ## Sequences of reads -/

theorem readAll_of_shows {setup : Setup} {sc : SecretConnection} {source : Source UInt8}
    (hshows : Shows setup sc source) (buffers : List Bytes) :
    (sc.readAll setup buffers).1 = reported counted source (buffers.map List.length) ∧
      Shows setup (sc.readAll setup buffers).2
        (advanceAll source (buffers.map List.length)) := by
  induction buffers generalizing sc source with
  | nil => exact ⟨rfl, hshows⟩
  | cons data buffers ih =>
    obtain ⟨hcounted, hnext⟩ := read_of_shows hshows data
    obtain ⟨hrest, hlast⟩ := ih hnext
    refine ⟨?_, hlast⟩
    calc
      (sc.readAll setup (data :: buffers)).1 =
          (if (sc.read setup data).err = none then (sc.read setup data).delivered else []) ++
            ((sc.read setup data).sc.readAll setup buffers).1 := rfl
      _ = reported counted source ((data :: buffers).map List.length) := by
        rw [hcounted, hrest]
        rfl

/-- Everything is counted exactly if each chunk is read at once, except at the last read. -/
theorem allReported_counted_iff (chunks : List Bytes) {sizes : List ℕ}
    (hsizes : ∀ size ∈ sizes, 0 < size) :
    AllReported counted ⟨[], chunks⟩ sizes ↔
      ∀ pair ∈ chunks.zip sizes.dropLast, pair.1.length ≤ pair.2 := by
  induction sizes generalizing chunks with
  | nil => simp [AllReported]
  | cons size sizes ih =>
    cases sizes with
    | nil => simp [AllReported, counted]
    | cons next sizes =>
      rw [List.forall_mem_cons] at hsizes
      have hfirst : AllReported counted ⟨[], chunks⟩ (size :: next :: sizes) ↔
          AllReported counted (Source.advance ⟨[], chunks⟩ size) (next :: sizes) :=
        and_iff_right (if_pos rfl)
      rw [hfirst]
      cases chunks with
      | nil =>
        have hempty := ih [] hsizes.2
        exact hempty
      | cons chunk chunks =>
        rw [List.dropLast_cons_cons, List.zip_cons_cons, List.forall_mem_cons, ← ih chunks hsizes.2]
        show AllReported counted ⟨chunk.drop size, chunks⟩ (next :: sizes) ↔ _
        by_cases hfits : chunk.length ≤ size
        · rw [List.drop_of_length_le hfits]
          exact (and_iff_right hfits).symm
        · -- a part of the chunk is left over, and the next read takes from it
          refine iff_of_false ?_ (fun h ↦ hfits h.1)
          rintro ⟨hlost, -⟩
          cases hleft : chunk.drop size with
          | nil => exact hfits (List.drop_eq_nil_iff.mp hleft)
          | cons byte left =>
            rw [hleft] at hlost
            have hnext : 0 < next := hsizes.2 next List.mem_cons_self
            have htaken : (byte :: left).take next = [] := hlost.symm
            rw [List.take_eq_nil_iff] at htaken
            cases htaken with
            | inl hzero => exact hnext.ne' hzero
            | inr hcons => cases hcons

/-- For all well-formed frames and all reads with buffers that are not empty: what is delivered and
what is still pending make up the stream, with no byte consumed uncounted, exactly if every buffer
but the last has room for the chunk that it is given. Then the delivered bytes begin the stream. -/
theorem read_delivers_iff (setup : Setup) (sc : SecretConnection) (chunks : List Bytes)
    (hfresh : sc.recvBuffer = []) (harrives : Arrives setup sc.recvNonce sc.conn.incoming chunks)
    (buffers : List Bytes) (hbuffers : ∀ data ∈ buffers, data ≠ []) :
    ∃ rest, Arrives setup (sc.readAll setup buffers).2.recvNonce
        (sc.readAll setup buffers).2.conn.incoming rest ∧
      ((sc.readAll setup buffers).1 ++ ((sc.readAll setup buffers).2.recvBuffer ++ rest.flatten) =
          chunks.flatten ↔
        ∀ pair ∈ chunks.zip (buffers.map List.length).dropLast, pair.1.length ≤ pair.2) ∧
      ((∀ pair ∈ chunks.zip (buffers.map List.length).dropLast, pair.1.length ≤ pair.2) →
        (sc.readAll setup buffers).1 <+: chunks.flatten) := by
  have hshows : Shows setup sc ⟨[], chunks⟩ := ⟨hfresh, harrives⟩
  obtain ⟨hdelivered, hlast⟩ := readAll_of_shows hshows buffers
  have hsizes : ∀ size ∈ buffers.map List.length, 0 < size := by
    intro size hsize
    obtain ⟨data, hdata, rfl⟩ := List.mem_map.mp hsize
    exact List.length_pos_iff.mpr (hbuffers data hdata)
  have hexact := reported_append_pending_iff counted_sublist ⟨[], chunks⟩ (buffers.map List.length)
  rw [allReported_counted_iff chunks hsizes, ← hdelivered] at hexact
  refine ⟨_, hlast.arrives, ?_, ?_⟩
  · rw [hlast.left]
    exact hexact
  · intro hfits
    exact ⟨_, hexact.mpr hfits⟩

/-- Two chunks, each read at once. -/
theorem read_delivers_roomy :
    (sampleConnection (emitted (sampleSetup .compressed) (List.replicate 24 0)
      [[1, 2], [3]])).readAll (sampleSetup .compressed) [[0, 0], [0, 0, 0]] =
        ([1, 2, 3], sampleConnection []) ∧
    ([1, 2, 3] : Bytes) <+: [[1, 2], [3]].flatten := by
  have harrives : Arrives (sampleSetup .compressed) (List.replicate 24 0)
      (emitted (sampleSetup .compressed) (List.replicate 24 0) [[1, 2], [3]]) [[1, 2], [3]] :=
    arrives_emitted _ (by decide) (by decide)
  obtain ⟨rest, -, -, hprefix⟩ := read_delivers_iff (sampleSetup .compressed)
    (sampleConnection (emitted (sampleSetup .compressed) (List.replicate 24 0) [[1, 2], [3]]))
    [[1, 2], [3]] rfl harrives [[0, 0], [0, 0, 0]] (by decide)
  exact ⟨rfl, hprefix (by decide)⟩

/-- Two chunks of two bytes and one. The second read takes a byte and says that it took none: the
caller is given the first byte and the third. -/
theorem read_loses_byte :
    Arrives (sampleSetup .compressed) (List.replicate 24 0)
      (emitted (sampleSetup .compressed) (List.replicate 24 0) [[1, 2], [3]]) [[1, 2], [3]] ∧
    (sampleConnection (emitted (sampleSetup .compressed) (List.replicate 24 0)
      [[1, 2], [3]])).readAll (sampleSetup .compressed) [[0], [0], [0]] =
        ([1, 3], sampleConnection []) ∧
    ¬ ([1, 3] : Bytes) <+: [[1, 2], [3]].flatten :=
  ⟨arrives_emitted _ (by decide) (by decide), rfl, by decide⟩

end LkChain.P2P.Streaming
