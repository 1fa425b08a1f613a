import LkChain.P2P.Streaming

/-!
# Frames that grow

`Write` bounds a chunk before it is compressed and panics when the compressed chunk exceeds
`frameCapacity`, which it never does. `Read` bounds the compressed chunk by `dataMaxSize`, the bound
of the chunk before: a full chunk that the compressor makes longer is sent, and the peer refuses it.
-/

namespace LkChain.P2P.Expansion

open Foundation
open Validators.ParseTx (Bytes)
open Frames Streaming

/-! ## The chunks of `Write` -/

/-- The chunks that `Write` cuts. -/
def cuts (data : Bytes) : List Bytes :=
  if data = [] then [] else data.take dataMaxSize :: cuts (data.drop dataMaxSize)
termination_by data.length
decreasing_by
  rename_i hdata
  rw [List.length_drop]
  exact Nat.sub_lt (List.length_pos_iff.mpr hdata) (by decide)

theorem flatten_cuts (data : Bytes) : (cuts data).flatten = data := by
  fun_induction cuts data with
  | case1 => rfl
  | case2 data hdata ih => rw [List.flatten_cons, ih, List.take_append_drop]

theorem length_le_of_mem_cuts {data chunk : Bytes} (hchunk : chunk ∈ cuts data) :
    chunk.length ≤ dataMaxSize := by
  fun_induction cuts data with
  | case1 => exact absurd hchunk List.not_mem_nil
  | case2 data hdata ih =>
    cases List.mem_cons.mp hchunk with
    | inl hfirst => exact hfirst ▸ List.length_take_le _ _
    | inr hrest => exact ih hrest

theorem cuts_of_length_le {data : Bytes} (hne : 0 < data.length)
    (hlength : data.length ≤ dataMaxSize) : cuts data = [data] := by
  rw [cuts, if_neg (List.length_pos_iff.mp hne), List.take_of_length_le hlength,
    List.drop_of_length_le hlength, cuts, if_pos rfl]

section Write

variable {setup : Setup} {sc after : SecretConnection} {data : Bytes}

theorem writeLoop_nil (n : ℕ) : sc.writeLoop setup n [] = .ok (sc, n, none) := by
  unfold SecretConnection.writeLoop
  exact if_pos rfl

theorem writeLoop_of_failed (n : ℕ) (hdata : data ≠ []) {error : String}
    (hwritten : sc.writeChunk setup (data.take dataMaxSize) = .ok (after, some error)) :
    sc.writeLoop setup n data = .ok (after, n, some error) := by
  unfold SecretConnection.writeLoop
  dsimp only
  rw [if_neg hdata, hwritten]
  rfl

theorem writeLoop_of_written (n : ℕ) (hdata : data ≠ [])
    (hwritten : sc.writeChunk setup (data.take dataMaxSize) = .ok (after, none)) :
    sc.writeLoop setup n data =
      after.writeLoop setup (n + (data.take dataMaxSize).length) (data.drop dataMaxSize) := by
  rw [SecretConnection.writeLoop]
  dsimp only
  rw [if_neg hdata, hwritten]
  rfl

theorem length_encode_le_frameCapacity {chunk : Bytes} (hchunk : chunk.length ≤ dataMaxSize) :
    (setup.snappy.encode chunk).length ≤ frameCapacity := by
  have hbound := setup.snappy.length_encode_le chunk
  unfold dataMaxSize at hchunk
  unfold frameCapacity
  omega

theorem writeChunk_eq (setup : Setup) (sc : SecretConnection) {chunk : Bytes}
    (hchunk : chunk.length ≤ dataMaxSize) :
    sc.writeChunk setup chunk =
      .ok ({ sc with
        conn := (sc.conn.write (packet setup sc.sendNonce chunk)).1
        sendNonce := nextNonce setup sc.sendNonce },
        (sc.conn.write (packet setup sc.sendNonce chunk)).2) := by
  unfold SecretConnection.writeChunk packet nextNonce
  cases setup.frameEncodeType with
  | encrypt => rfl
  | compressed => exact if_neg (Nat.not_lt.mpr (length_encode_le_frameCapacity hchunk))

theorem write_of_no_answers {conn : Conn} (hanswers : conn.answers = []) (bytes : Bytes) :
    conn.write bytes = ({ conn with outgoing := conn.outgoing ++ bytes }, none) := by
  unfold Conn.write
  rw [hanswers]

theorem writeLoop_returns (setup : Setup) (sc : SecretConnection) (n : ℕ) (data : Bytes) :
    ∃ after written error, sc.writeLoop setup n data = .ok (after, written, error) ∧
      (sc.conn.answers = [] → error = none ∧ written = n + data.length ∧
        after.conn.outgoing = sc.conn.outgoing ++ emitted setup sc.sendNonce (cuts data)) := by
  fun_induction cuts data generalizing sc n with
  | case1 =>
    refine ⟨sc, n, none, writeLoop_nil n, fun _ ↦ ⟨rfl, rfl, ?_⟩⟩
    exact (List.append_nil _).symm
  | case2 data hdata ih =>
    have hwritten := writeChunk_eq setup sc (List.length_take_le dataMaxSize data)
    generalize hsent : sc.conn.write (packet setup sc.sendNonce (data.take dataMaxSize)) = sent
      at hwritten
    rcases sent with ⟨conn, error⟩
    cases error with
    | some error =>
      refine ⟨_, n, some error, writeLoop_of_failed n hdata hwritten, ?_⟩
      intro hanswers
      rw [write_of_no_answers hanswers] at hsent
      cases hsent
    | none =>
      obtain ⟨last, written, error, hlast, hrest⟩ := ih
        { sc with conn := conn, sendNonce := nextNonce setup sc.sendNonce }
        (n + (data.take dataMaxSize).length)
      refine ⟨last, written, error, (writeLoop_of_written n hdata hwritten).trans hlast, ?_⟩
      intro hanswers
      rw [write_of_no_answers hanswers] at hsent
      cases hsent
      obtain ⟨herror, hcount, houtgoing⟩ := hrest hanswers
      refine ⟨herror, ?_, houtgoing.trans (List.append_assoc _ _ _)⟩
      rw [hcount, Nat.add_assoc, ← List.length_append, List.take_append_drop]

end Write

/-! ## The frames on the other side -/

/-- A read that finds the frame of a chunk returns the chunk. -/
def Accepted (setup : Setup) (chunk : Bytes) : Prop :=
  ∀ (sc : SecretConnection) (rest data : Bytes), sc.recvBuffer = [] →
    sc.conn.incoming = frame setup chunk ++ rest → chunk.length ≤ data.length →
    (sc.read setup data).err = none ∧ (sc.read setup data).delivered = chunk ∧
      (sc.read setup data).sc.conn.incoming = rest

/-- A read that finds the frame of a chunk fails because of its length. -/
def Rejected (setup : Setup) (chunk : Bytes) : Prop :=
  ∀ (sc : SecretConnection) (rest data : Bytes), sc.recvBuffer = [] →
    sc.conn.incoming = frame setup chunk ++ rest →
    (sc.read setup data).err = some (.text "chunkLength is greater than dataMaxSize")

section Read

variable {setup : Setup} {chunk : Bytes}

theorem accepted_of_le (hmode : setup.frameEncodeType = .compressed)
    (hchunk : chunk.length ≤ dataMaxSize)
    (hencoded : (setup.snappy.encode chunk).length ≤ dataMaxSize) : Accepted setup chunk := by
  intro sc rest data hleft hincoming hroom
  rw [frame_compressed hmode, List.append_assoc] at hincoming
  have hread := read_of_chunk hleft (readChunk_compressed hmode hincoming (length_header _ _)
    (uint32_encoded hchunk) hencoded (setup.snappy.decode_encode chunk) hchunk) data
  rw [hread]
  refine ⟨rfl, ?_, rfl⟩
  calc
    (copy data chunk).take (min data.length chunk.length) = chunk.take data.length :=
      take_copy data chunk
    _ = chunk := List.take_of_length_le hroom

theorem rejected_of_lt (hmode : setup.frameEncodeType = .compressed)
    (hchunk : chunk.length ≤ dataMaxSize)
    (hencoded : dataMaxSize < (setup.snappy.encode chunk).length) : Rejected setup chunk := by
  intro sc rest data hleft hincoming
  rw [frame_compressed hmode, List.append_assoc] at hincoming
  rw [read_of_error hleft (readChunk_too_long hmode hincoming (length_header _ _)
    (by rwa [uint32_encoded hchunk])) data]

theorem Rejected.not_accepted (hrejected : Rejected setup chunk) : ¬ Accepted setup chunk := by
  intro haccepted
  have haccepts := haccepted ⟨⟨frame setup chunk ++ [], [], []⟩, [], [], []⟩ [] chunk rfl rfl le_rfl
  rw [hrejected _ [] chunk rfl rfl] at haccepts
  cases haccepts.1

end Read

theorem emitted_compressed {setup : Setup} (hmode : setup.frameEncodeType = .compressed)
    (nonce : Nonce) (chunks : List Bytes) :
    emitted setup nonce chunks = (chunks.map (frame setup)).flatten := by
  induction chunks generalizing nonce with
  | nil => rfl
  | cons chunk chunks ih =>
    unfold emitted packet
    rw [ih, hmode]
    rfl

/-- In the compressed mode `Write` does not panic, whatever the data and the connection, and sends
the frames of its chunks. A peer accepts all of them, each with the chunk that was written, exactly
if no chunk takes more than `dataMaxSize` bytes after compression; it rejects the others for their
length. Chunks of up to 28060 bytes are always short enough. -/
theorem frames_accepted_iff (setup : Setup) (hmode : setup.frameEncodeType = .compressed)
    (data : Bytes) :
    (∀ sc, ∃ after n error, SecretConnection.write setup sc data = .ok (after, n, error) ∧
      (sc.conn.answers = [] → error = none ∧ n = data.length ∧
        after.conn.outgoing = sc.conn.outgoing ++ ((cuts data).map (frame setup)).flatten)) ∧
    (cuts data).flatten = data ∧
    ((∀ chunk ∈ cuts data, Accepted setup chunk) ↔
      ∀ chunk ∈ cuts data, (setup.snappy.encode chunk).length ≤ dataMaxSize) ∧
    (∀ chunk ∈ cuts data, dataMaxSize < (setup.snappy.encode chunk).length →
      Rejected setup chunk) ∧
    (data.length ≤ 28060 → ∀ chunk ∈ cuts data, Accepted setup chunk) := by
  have haccepted : ∀ chunk ∈ cuts data, (setup.snappy.encode chunk).length ≤ dataMaxSize →
      Accepted setup chunk :=
    fun chunk hchunk ↦ accepted_of_le hmode (length_le_of_mem_cuts hchunk)
  have hrejected : ∀ chunk ∈ cuts data, dataMaxSize < (setup.snappy.encode chunk).length →
      Rejected setup chunk :=
    fun chunk hchunk ↦ rejected_of_lt hmode (length_le_of_mem_cuts hchunk)
  refine ⟨?_, flatten_cuts data, ⟨?_, ?_⟩, hrejected, ?_⟩
  · intro sc
    obtain ⟨after, n, error, hwritten, hsent⟩ := writeLoop_returns setup sc 0 data
    rw [Nat.zero_add, emitted_compressed hmode] at hsent
    exact ⟨after, n, error, hwritten, hsent⟩
  · intro hall chunk hchunk
    apply not_lt.mp
    intro hlong
    exact (hrejected chunk hchunk hlong).not_accepted (hall chunk hchunk)
  · intro hall chunk hchunk
    exact haccepted chunk hchunk (hall chunk hchunk)
  · intro hshort chunk hchunk
    apply haccepted chunk hchunk
    have hlength : chunk.length ≤ data.length := by
      rw [← flatten_cuts data]
      exact (List.sublist_flatten_of_mem hchunk).length_le
    have hbound := setup.snappy.length_encode_le chunk
    unfold dataMaxSize
    omega

/-- Three bytes. -/
theorem frames_accepted_three :
    cuts [1, 2, 3] = [[1, 2, 3]] ∧ Accepted (sampleSetup .compressed) [1, 2, 3] := by
  have hcuts : cuts [1, 2, 3] = [[1, 2, 3]] := cuts_of_length_le (by decide) (by decide)
  refine ⟨hcuts, ?_⟩
  apply (frames_accepted_iff (sampleSetup .compressed) rfl [1, 2, 3]).2.2.2.2 (by decide)
  rw [hcuts]
  exact List.mem_singleton_self _

theorem write_full_chunk {setup : Setup} (hmode : setup.frameEncodeType = .compressed)
    {data : Bytes}
    (hlength : data.length = dataMaxSize) {sc : SecretConnection}
    (hanswers : sc.conn.answers = []) :
    ∃ after, sc.write setup data = .ok (after, dataMaxSize, none) ∧
      after.conn.outgoing = sc.conn.outgoing ++ frame setup data := by
  have hpos : 0 < data.length := by
    rw [hlength]
    decide
  obtain ⟨after, n, error, hwritten, hsent⟩ := writeLoop_returns setup sc 0 data
  obtain ⟨rfl, rfl, houtgoing⟩ := hsent hanswers
  rw [Nat.zero_add, hlength] at hwritten
  rw [cuts_of_length_le hpos hlength.le, emitted_compressed hmode, List.map_singleton,
    List.flatten_singleton] at houtgoing
  exact ⟨after, hwritten, houtgoing⟩

/-- A full chunk that the compressor makes longer: `Write` sends it, and `Read` refuses it. -/
theorem full_chunk_rejected : ∃ data : Bytes, data.length = dataMaxSize ∧
    dataMaxSize < ((sampleSetup .compressed).snappy.encode data).length ∧
    (∃ after, SecretConnection.write (sampleSetup .compressed) (sampleConnection []) data =
        .ok (after, dataMaxSize, none) ∧
      after.conn.outgoing = [] ++ frame (sampleSetup .compressed) data) ∧
    Rejected (sampleSetup .compressed) data := by
  have hlonger : ∀ data : Bytes,
      data.length < ((sampleSetup .compressed).snappy.encode data).length :=
    fun data ↦ Nat.lt_succ_self data.length
  have hlength : (List.replicate dataMaxSize (0 : UInt8)).length = dataMaxSize :=
    List.length_replicate
  have hencoded := hlonger (List.replicate dataMaxSize 0)
  rw [hlength] at hencoded
  exact ⟨List.replicate dataMaxSize 0, hlength, hencoded, write_full_chunk rfl hlength rfl,
    rejected_of_lt rfl hlength.le hencoded⟩

end LkChain.P2P.Expansion
