import ZeroLanCom.Library.Blocks
import ZeroLanCom.Library.Runs
import ZeroLanCom.Serialization.Codec

/-!
# The output buffer of the encoder

A `ByteBuffer` owns a block from `realloc`. An encode resets its size and hands
it to the packer, which writes one chunk after the other; the block is kept and
grows when a chunk does not fit. Sizes are 64-bit words that wrap around, and
any `realloc` may fail.
-/

namespace ZeroLanCom

open Throwing Blocks

/-- What ends a call early. After a copy outside of the block nothing is defined. -/
inductive BufferFault where
  | badAlloc
  | encodeException
  | copyOutside
  deriving DecidableEq

/-- `ByteBuffer`, with the block its pointer stands for. -/
structure ByteBuffer where
  data : UInt64 := 0
  block : Bytes := []
  size : UInt64 := 0
  capacity : UInt64 := 0

/-- What one `realloc` returns: the pointer, null if there is no memory, and what the new cells
of the block hold. -/
structure Allocation where
  newdata : UInt64
  fill : Nat → UInt8

/-- One `write` of the packer, with the answer to a `realloc` that it may need. -/
structure Chunk where
  buf : Bytes
  answer : Allocation

namespace Chunk

/-- `len`. -/
def len (c : Chunk) : UInt64 := UInt64.ofNat c.buf.length

/-- The bytes of all chunks, one after the other. -/
def concat (chunks : List Chunk) : Bytes := chunks.flatMap Chunk.buf

@[simp] theorem concat_nil : concat [] = [] := rfl

@[simp] theorem concat_cons (c : Chunk) (chunks : List Chunk) :
    concat (c :: chunks) = c.buf ++ concat chunks := List.flatMap_cons

@[simp] theorem concat_append (before after : List Chunk) :
    concat (before ++ after) = concat before ++ concat after := List.flatMap_append

end Chunk

/-- The chunks of one encode; all of them together fit into `size_t`. -/
structure Encoding where
  chunks : List Chunk
  fits : (Chunk.concat chunks).length < 2 ^ 64

namespace ByteBuffer

/-- `newcap`. -/
def newcap (b : ByteBuffer) (c : Chunk) : UInt64 := max (b.capacity * 2) (b.size + c.len)

/-- `std::memcpy(data + size, buf, len); size += len;`. -/
def append (c : Chunk) (b : ByteBuffer) : Outcome BufferFault ByteBuffer :=
  match copyInto b.block b.size.toNat c.buf with
  | some block => .done { b with block := block, size := b.size + c.len }
  | none => .threw .copyOutside b

/-- The buffer with the block that `realloc` returned. -/
def grown (c : Chunk) (b : ByteBuffer) : ByteBuffer :=
  { b with
    data := c.answer.newdata
    block := resize b.block (b.newcap c).toNat c.answer.fill
    capacity := b.newcap c }

/-- `ByteBuffer::write`. -/
def write (c : Chunk) (b : ByteBuffer) : Outcome BufferFault ByteBuffer :=
  if b.capacity < b.size + c.len then
    if c.answer.newdata = 0 then .threw .badAlloc b else append c (b.grown c)
  else append c b

/-- The buffer is to be written from its beginning again. -/
def reset (b : ByteBuffer) : ByteBuffer := { b with size := 0 }

/-- `encode` of an object that the packer writes in these chunks. -/
def encode (chunks : List Chunk) (b : ByteBuffer) : Outcome BufferFault ByteBuffer :=
  match forEach write chunks b.reset with
  | .threw .badAlloc b => .threw .encodeException b
  | o => o

/-- One encode of a run; its exception ends with the caller. -/
def encodeStep (b : ByteBuffer) (e : Encoding) : ByteBuffer := (encode e.chunks b).state

/-- The bytes that `ByteView{data, size}` shows. -/
def contents (b : ByteBuffer) : Bytes := b.block.take b.size.toNat

/-- The block is as long as the buffer believes, and the size stays inside. -/
structure Valid (b : ByteBuffer) : Prop where
  size_le : b.size ≤ b.capacity
  allocated : b.block.length = b.capacity.toNat

/-- The write asks for memory and gets none. -/
def OutOfMemory (b : ByteBuffer) (c : Chunk) : Prop :=
  b.capacity < b.size + c.len ∧ c.answer.newdata = 0

/-- A buffer without a block is valid. -/
theorem valid_new : Valid {} := ⟨by decide, rfl⟩

/-- It stays valid when it is reset. -/
theorem Valid.reset {b : ByteBuffer} (h : b.Valid) : b.reset.Valid :=
  ⟨UInt64.le_iff_toNat_le.mpr (Nat.zero_le _), h.allocated⟩

@[simp] theorem contents_reset (b : ByteBuffer) : b.reset.contents = [] := List.take_zero

/-- What has been written lies within the block. -/
theorem Valid.size_le_length {b : ByteBuffer} (h : b.Valid) : b.size.toNat ≤ b.block.length := by
  rw [h.allocated]
  exact UInt64.le_iff_toNat_le.mp h.size_le

/-- And all of it is in view. -/
theorem Valid.length_contents {b : ByteBuffer} (h : b.Valid) :
    b.contents.length = b.size.toNat := by
  rw [contents, List.length_take, Nat.min_eq_left h.size_le_length]

/-- What fits into `size_t` is added up without a wrap. -/
theorem toNat_size_add_len {b : ByteBuffer} {c : Chunk}
    (hfits : b.size.toNat + c.buf.length < 2 ^ 64) :
    (b.size + c.len).toNat = b.size.toNat + c.buf.length := by
  have hlen : c.len.toNat = c.buf.length := UInt64.toNat_ofNat_of_lt' (by rw [UInt64.size]; omega)
  rw [UInt64.toNat_add, hlen, Nat.mod_eq_of_lt hfits]

/-- With room for the chunk it is written behind the contents. -/
theorem append_of_room {b : ByteBuffer} {c : Chunk} (h : b.Valid)
    (hfits : b.size.toNat + c.buf.length < 2 ^ 64)
    (hroom : b.size.toNat + c.buf.length ≤ b.capacity.toNat) :
    ∃ b', append c b = .done b' ∧ b'.Valid ∧ b'.contents = b.contents ++ c.buf := by
  have hinside : b.size.toNat + c.buf.length ≤ b.block.length := by rwa [h.allocated]
  obtain ⟨block, hblock⟩ := exists_copyInto hinside
  have hsize := toNat_size_add_len hfits
  refine ⟨{ b with block := block, size := b.size + c.len }, ?_, ⟨?_, ?_⟩, ?_⟩
  · rw [append, hblock]
  · rw [UInt64.le_iff_toNat_le, hsize]
    exact hroom
  · exact (length_copyInto hblock).2.trans h.allocated
  · rw [contents, hsize]
    exact take_copyInto hblock

/-- The new capacity has room for the chunk, even if the doubling wraps around. -/
theorem le_newcap {b : ByteBuffer} {c : Chunk} (hfits : b.size.toNat + c.buf.length < 2 ^ 64) :
    b.size.toNat + c.buf.length ≤ (b.newcap c).toNat := by
  rw [newcap, UInt64.toNat_max, ← toNat_size_add_len hfits]
  exact Nat.le_max_right _ _

/-- Growing keeps the contents. -/
theorem Valid.grown {b : ByteBuffer} {c : Chunk} (h : b.Valid)
    (hfits : b.size.toNat + c.buf.length < 2 ^ 64) :
    (b.grown c).Valid ∧ (b.grown c).contents = b.contents := by
  have hroom := le_newcap hfits
  have hsize : b.size.toNat ≤ (b.newcap c).toNat := by omega
  exact ⟨⟨UInt64.le_iff_toNat_le.mpr hsize, length_resize _ _ _⟩,
    take_resize c.answer.fill hsize h.size_le_length⟩

/-- A write without memory raises and leaves everything as it was. -/
theorem write_of_outOfMemory {b : ByteBuffer} {c : Chunk} (h : b.OutOfMemory c) :
    write c b = .threw .badAlloc b := by
  rw [write, if_pos h.1, if_pos h.2]

/-- Every other write appends its chunk, inside of the block. -/
theorem write_of_memory {b : ByteBuffer} {c : Chunk} (h : b.Valid)
    (hfits : b.size.toNat + c.buf.length < 2 ^ 64) (hmemory : ¬ b.OutOfMemory c) :
    ∃ b', write c b = .done b' ∧ b'.Valid ∧ b'.contents = b.contents ++ c.buf := by
  rw [write]
  split_ifs with hfull hnull
  · exact absurd ⟨hfull, hnull⟩ hmemory
  · obtain ⟨hgrown, hcontents⟩ := h.grown hfits
    obtain ⟨b', hb', hvalid, hwritten⟩ := append_of_room hgrown hfits (le_newcap hfits)
    exact ⟨b', hb', hvalid, hcontents ▸ hwritten⟩
  · have hroom : (b.size + c.len).toNat ≤ b.capacity.toNat :=
      Nat.not_lt.mp (mt UInt64.lt_iff_toNat_lt.mpr hfull)
    rw [toNat_size_add_len hfits] at hroom
    exact append_of_room h hfits hroom

/-- Writes that have all returned leave their chunks behind the contents. -/
theorem contents_of_writes {chunks : List Chunk} {b b' : ByteBuffer} (h : b.Valid)
    (hfits : b.size.toNat + (Chunk.concat chunks).length < 2 ^ 64)
    (hdone : forEach write chunks b = .done b') :
    b'.Valid ∧ b'.contents = b.contents ++ Chunk.concat chunks := by
  induction chunks generalizing b with
  | nil =>
    cases hdone
    exact ⟨h, (List.append_nil _).symm⟩
  | cons c chunks ih =>
    rw [Chunk.concat_cons, List.length_append] at hfits
    by_cases hmemory : b.OutOfMemory c
    · rw [forEach_cons, write_of_outOfMemory hmemory] at hdone
      cases hdone
    · obtain ⟨b₁, hb₁, hvalid, hcontents⟩ := write_of_memory h (by omega) hmemory
      rw [forEach_cons, hb₁, Outcome.done_bind] at hdone
      have hsize : b₁.size.toNat = b.size.toNat + c.buf.length := by
        rw [← hvalid.length_contents, hcontents, List.length_append, h.length_contents]
      obtain ⟨hvalid', hcontents'⟩ := ih hvalid (by omega) hdone
      refine ⟨hvalid', ?_⟩
      rw [hcontents', hcontents, Chunk.concat_cons, List.append_assoc]

/-- What a write finds after others have filled the buffer with `written`, and what it does. -/
structure WriteSound (written : Bytes) (c : Chunk) (b : ByteBuffer) : Prop where
  valid : b.Valid
  contents : b.contents = written
  raises : b.OutOfMemory c → write c b = .threw .badAlloc b
  copies : ¬ b.OutOfMemory c →
    ∃ b', write c b = .done b' ∧ b'.Valid ∧ b'.contents = written ++ c.buf

/-- Every write of an encode that is reached does what it should. The encode returns with exactly
its chunks in the buffer, or it raises at the first write that gets no memory. -/
structure EncodeSound (b : ByteBuffer) (e : Encoding) : Prop where
  writes : ∀ before c after b₁, e.chunks = before ++ c :: after →
    forEach write before b.reset = .done b₁ → WriteSound (Chunk.concat before) c b₁
  result : (∃ b', encode e.chunks b = .done b' ∧ b'.Valid ∧ b'.contents = Chunk.concat e.chunks) ∨
    ∃ before c after b', e.chunks = before ++ c :: after ∧
      forEach write before b.reset = .done b' ∧ b'.OutOfMemory c ∧
      encode e.chunks b = .threw .encodeException b'

/-- Every write of an encode does what it should, if those before it have returned. -/
theorem writeSound {b b₁ : ByteBuffer} {e : Encoding} (h : b.Valid) {before after : List Chunk}
    {c : Chunk} (hchunks : e.chunks = before ++ c :: after)
    (hdone : forEach write before b.reset = .done b₁) :
    WriteSound (Chunk.concat before) c b₁ := by
  have hfits := e.fits
  rw [hchunks, Chunk.concat_append, Chunk.concat_cons, List.length_append,
    List.length_append] at hfits
  have hzero : b.reset.size.toNat = 0 := rfl
  obtain ⟨hvalid, hcontents⟩ := contents_of_writes h.reset (by omega) hdone
  rw [contents_reset, List.nil_append] at hcontents
  have hsize : b₁.size.toNat = (Chunk.concat before).length := by
    rw [← hvalid.length_contents, hcontents]
  refine ⟨hvalid, hcontents, write_of_outOfMemory, fun hmemory => ?_⟩
  obtain ⟨b', hb', hvalid', hcontents'⟩ := write_of_memory hvalid (by omega) hmemory
  exact ⟨b', hb', hvalid', hcontents ▸ hcontents'⟩

/-- And so does the encode as a whole. -/
theorem encodeSound {b : ByteBuffer} (h : b.Valid) (e : Encoding) : EncodeSound b e := by
  refine ⟨fun before c after b₁ hchunks hdone => writeSound h hchunks hdone, ?_⟩
  cases hloop : forEach write e.chunks b.reset with
  | done b' =>
    have hfits : b.reset.size.toNat + (Chunk.concat e.chunks).length < 2 ^ 64 := by
      have hzero : b.reset.size.toNat = 0 := rfl
      have hbound := e.fits
      omega
    obtain ⟨hvalid, hcontents⟩ := contents_of_writes h.reset hfits hloop
    rw [contents_reset, List.nil_append] at hcontents
    exact Or.inl ⟨b', by rw [encode, hloop], hvalid, hcontents⟩
  | threw fault b' =>
    obtain ⟨before, c, after, b₁, hchunks, hdone, hthrew⟩ := forEach_eq_threw_iff.mp hloop
    have hwrite := writeSound h hchunks hdone
    by_cases hmemory : b₁.OutOfMemory c
    · rw [hwrite.raises hmemory] at hthrew
      cases hthrew
      exact Or.inr ⟨before, c, after, b', hchunks, hdone, hmemory, by rw [encode, hloop]⟩
    · obtain ⟨b₂, hb₂, _, _⟩ := hwrite.copies hmemory
      rw [hb₂] at hthrew
      cases hthrew

/-- It leaves a valid buffer, whether it returns or raises. -/
theorem encodeStep_valid (b : ByteBuffer) (e : Encoding) (h : b.Valid) :
    (encodeStep b e).Valid := by
  have hsound := encodeSound h e
  rcases hsound.result with ⟨b', hb', hvalid, _⟩ | ⟨before, c, after, b', hchunks, hdone, _, hb'⟩
  · rw [encodeStep, hb']
    exact hvalid
  · rw [encodeStep, hb']
    exact (hsound.writes before c after b' hchunks hdone).valid

/-- A buffer that is used for one encode after the other stays valid, and every encode and every
write of it does what it should. -/
theorem reuse_sound (encodes : List Encoding) :
    Runs.Always encodeStep Valid {} encodes ∧ Runs.Each encodeStep EncodeSound {} encodes := by
  have halways : Runs.Always encodeStep Valid {} encodes :=
    Runs.always_of_step encodeStep_valid valid_new encodes
  exact ⟨halways, Runs.each_of_always (fun _ e h => encodeSound h e) halways⟩

variable {ρ : Type*}

/-- After an encode that returns, the view shows what MessagePack makes of the object. -/
theorem msgPack_encode_of_encode {codec : MsgPack ρ} {obj : ρ} {e : Encoding} {b b' : ByteBuffer}
    (h : b.Valid) (hpack : codec.pack obj = some (Chunk.concat e.chunks))
    (hdone : encode e.chunks b = .done b') : codec.encode obj = .ok b'.contents := by
  rcases (encodeSound h e).result with ⟨b₁, hb₁, _, hcontents⟩ | ⟨_, _, _, b₁, _, _, _, hb₁⟩
  · rw [hb₁] at hdone
    cases hdone
    rw [MsgPack.encode, hpack, hcontents]
  · rw [hb₁] at hdone
    cases hdone

end ByteBuffer

end ZeroLanCom
