import Upipe.Entities.MemQueue.Control
import Upipe.Common.RingBuffer

/-!
# Frames and the data area

`Frame` is a frame as it lies on the queue, `frameBytes` the bytes that `put` writes, and `withData`
replaces the data area. `SameCtl lo hi` is the frame condition for the control bytes when the data area
may change.
-/

namespace Upipe.MemQueue

open Upipe.Common

/-! ## Frames -/

/-- The bytes of one frame on the queue: a full header, marked as created, that knows its size.
Watermark, checksum and body are arbitrary. -/
structure Frame where
  raw : Bytes
  header_le : frameHeaderSize ≤ raw.length
  created : raw[frameStatusOffset]? = some frameCreated
  size_eq : leValue (slice raw frameSizeOffset (frameSizeOffset + 4)) = raw.length

namespace Frame

def watermark (f : Frame) : Bytes :=
  slice f.raw frameWatermarkOffset (frameWatermarkOffset + 8)

def crc (f : Frame) : Bytes := slice f.raw frameCrc32Offset (frameCrc32Offset + 4)

def body (f : Frame) : Bytes := f.raw.drop frameHeaderSize

theorem length_pos (f : Frame) : 0 < f.raw.length :=
  Nat.lt_of_lt_of_le (by decide) f.header_le

end Frame

/-- A four-byte field by its bytes. -/
private theorem four_bytes {s : Bytes} (h : s.length = 4) : ∃ a b c d, s = [a, b, c, d] := by
  match s, h with
  | [a, b, c, d], _ => exact ⟨a, b, c, d, rfl⟩

/-- The header that `put` assembles field by field, written out. -/
theorem frameHeader_eq {size crc num : Bytes} (hs : size.length = 4) (hc : crc.length = 4)
    (hn : num.length = 4) :
    frameHeader size crc num
      = [frameCreated, 13] ++ size ++ waterMark ++ crc ++ num ++ List.replicate 10 0 := by
  obtain ⟨s₀, s₁, s₂, s₃, rfl⟩ := four_bytes hs
  obtain ⟨c₀, c₁, c₂, c₃, rfl⟩ := four_bytes hc
  obtain ⟨n₀, n₁, n₂, n₃, rfl⟩ := four_bytes hn
  rfl

/-- The bytes that `put` writes for a body, under frame number `num`. -/
def frameBytes (body : Bytes) (num : ℕ) : Bytes :=
  frameHeader (leBytes 4 (frameSize body)) (leBytes 4 (crc32 body).toNat) (leBytes 4 num) ++ body

private theorem frameBytes_eq (body : Bytes) (num : ℕ) :
    frameBytes body num = [frameCreated, 13] ++ leBytes 4 (frameSize body) ++ waterMark
      ++ leBytes 4 (crc32 body).toNat ++ leBytes 4 num ++ List.replicate 10 0 ++ body := by
  rw [frameBytes, frameHeader_eq (length_leBytes ..) (length_leBytes ..) (length_leBytes ..)]

@[simp] theorem length_frameBytes (body : Bytes) (num : ℕ) :
    (frameBytes body num).length = frameSize body := by
  rw [frameBytes_eq]
  simp only [List.length_append, length_leBytes, List.length_cons, List.length_nil, waterMark,
    List.length_replicate, frameSize, frameHeaderSize]
  omega

/-- The frame that `put` writes for a body, under frame number `num`. -/
def Frame.ofBody (body : Bytes) (num : ℕ) (h : frameSize body < 256 ^ 4) : Frame where
  raw := frameBytes body num
  header_le := by rw [length_frameBytes, frameSize]; omega
  created := by rw [frameBytes_eq]; rfl
  size_eq := by
    have hfield : slice (frameBytes body num) frameSizeOffset (frameSizeOffset + 4)
        = leBytes 4 (frameSize body) := by rw [frameBytes_eq]; rfl
    rw [hfield, leValue_leBytes h, length_frameBytes]

section OfBody

variable {body : Bytes} {num : ℕ} (h : frameSize body < 256 ^ 4)

@[simp] theorem Frame.raw_ofBody : (Frame.ofBody body num h).raw = frameBytes body num := rfl

@[simp] theorem Frame.watermark_ofBody : (Frame.ofBody body num h).watermark = waterMark := by
  rw [Frame.watermark, Frame.raw_ofBody, frameBytes_eq]; rfl

@[simp] theorem Frame.crc_ofBody :
    (Frame.ofBody body num h).crc = leBytes 4 (crc32 body).toNat := by
  rw [Frame.crc, Frame.raw_ofBody, frameBytes_eq]; rfl

@[simp] theorem Frame.body_ofBody : (Frame.ofBody body num h).body = body := by
  rw [Frame.body, Frame.raw_ofBody, frameBytes_eq]; rfl

end OfBody

/-- The frames back to back. -/
def contents (frames : List Frame) : Bytes := frames.flatMap Frame.raw

@[simp] theorem contents_nil : contents [] = [] := rfl

@[simp] theorem contents_cons (f : Frame) (frames : List Frame) :
    contents (f :: frames) = f.raw ++ contents frames := List.flatMap_cons

@[simp] theorem contents_append (frames frames' : List Frame) :
    contents (frames ++ frames') = contents frames ++ contents frames' := List.flatMap_append

/-! ## Stores in the data area -/

/-- The queue with its data area replaced. -/
def withData (q : MemQueue) (d : Bytes) : MemQueue :=
  { q with buf := q.buf.take qControlSize ++ d }

/-- `q'` has the attributes and, outside the bytes from `lo` up to `hi`, the control bytes of `q`. -/
structure SameCtl (lo hi : ℕ) (q q' : MemQueue) : Prop where
  attrs : q' = { q with buf := q'.buf }
  length_eq : q'.buf.length = q.buf.length
  outside : ∀ a b, b ≤ qControlSize → b ≤ lo ∨ hi ≤ a → slice q'.buf a b = slice q.buf a b

namespace SameCtl

variable {lo hi : ℕ} {q q' q'' : MemQueue}

theorem trans (h : SameCtl lo hi q q') (h' : SameCtl lo hi q' q'') : SameCtl lo hi q q'' where
  attrs := by rw [h'.attrs, h.attrs]
  length_eq := h'.length_eq.trans h.length_eq
  outside a b hb hd := (h'.outside a b hb hd).trans (h.outside a b hb hd)

theorem mono {lo' hi' : ℕ} (h : SameCtl lo hi q q') (hlo : lo' ≤ lo) (hhi : hi ≤ hi') :
    SameCtl lo' hi' q q' where
  attrs := h.attrs
  length_eq := h.length_eq
  outside a b hb hd := h.outside a b hb (by omega)

theorem getInt (h : SameCtl lo hi q q') {address len : ℕ} (hb : address + len ≤ qControlSize)
    (hd : address + len ≤ lo ∨ hi ≤ address) : q'.getInt address len = q.getInt address len := by
  rw [MemQueue.getInt, MemQueue.getInt, h.outside _ _ hb hd]

theorem size (h : SameCtl lo hi q q') : q'.size = q.size := by rw [h.attrs]

theorem frameCounter (h : SameCtl lo hi q q') : q'.frameCounter = q.frameCounter := by rw [h.attrs]

end SameCtl

theorem SameOff.sameCtl {lo hi : ℕ} {q q' : MemQueue} (h : SameOff lo hi q q') :
    SameCtl lo hi q q' where
  attrs := h.attrs
  length_eq := h.length_eq
  outside a b _ hd := h.outside a b hd

section WithData

variable {q : MemQueue} {d : Bytes}

theorem length_data (q : MemQueue) : q.data.length = q.buf.length - qControlSize :=
  List.length_drop ..

theorem data_withData (h : qControlSize ≤ q.buf.length) : (q.withData d).data = d := by
  have htake : (q.buf.take qControlSize).length = qControlSize := by
    rw [List.length_take]; omega
  show (q.buf.take qControlSize ++ d).drop qControlSize = d
  conv_lhs => enter [1]; rw [← htake]
  exact List.drop_left

theorem withData_sameCtl (h : qControlSize ≤ q.buf.length) (hd : d.length = q.data.length) :
    SameCtl qControlSize 0 q (q.withData d) where
  attrs := rfl
  length_eq := by
    show (q.buf.take qControlSize ++ d).length = q.buf.length
    rw [List.length_append, hd, length_data, List.length_take]
    omega
  outside a b hb _ := by
    show slice (q.buf.take qControlSize ++ d) a b = slice q.buf a b
    rw [slice_append_left (by rw [List.length_take]; omega), slice, slice, List.take_take,
      Nat.min_eq_left hb]

/-- A store behind the control bytes is a store in the data area. -/
theorem patch_eq_withData {p : ℕ} {v : Bytes} (hp : qControlSize ≤ p)
    (h : p + v.length ≤ q.buf.length) :
    { q with buf := patch q.buf p v } = q.withData (patch q.data (p - qControlSize) v) := by
  have htake : (patch q.buf p v).take qControlSize = q.buf.take qControlSize := by
    rw [← slice_zero, slice_patch_of_disjoint h (Or.inl hp), slice_zero]
  rw [withData, data, ← drop_patch_of_ge h hp, ← htake, List.take_append_drop]

theorem withData_withData {d' : Bytes} (h : qControlSize ≤ q.buf.length) :
    (q.withData d).withData d' = q.withData d' := by
  have htake : (q.buf.take qControlSize ++ d).take qControlSize = q.buf.take qControlSize := by
    rw [List.take_append_of_le_length (by rw [List.length_take]; omega), List.take_take,
      Nat.min_self]
  rw [withData, withData, withData]
  exact congrArg (fun t => { q with buf := t ++ d' }) htake

/-- `store` behind the control bytes. -/
theorem store_data {p : ℕ} {lo hi : ℤ} {v : Bytes} (hlo : lo = p) (hp : qControlSize ≤ p)
    (hhi : hi ≤ q.buf.length) (hv : (v.length : ℤ) = hi - lo) :
    store lo hi v q = .ok () (q.withData (patch q.data (p - qControlSize) v)) := by
  subst hlo
  rw [store_ok (by omega) hhi hv, Int.toNat_natCast, patch_eq_withData hp (by omega)]

end WithData

end Upipe.MemQueue
