import Upipe.Entities.MemQueue.Layout

/-!
# The layout invariant

`Stores q frames`: read circularly from `exe_index`, the data area holds the given frames back to back
and then zeros, and `alloc_index` points behind the last frame. The invariant says nothing about the
two counters, and it allows the frames to fill the whole data area, where the two indices coincide.

Each primitive of `put` and `get` has one lemma here that gives its exact effect: `writeFrame_stores`
appends a frame, `readFrameHeader_cons` and `readFrameData_cons` read the first frame, and
`clear_and_advance` removes it. They hold wherever the end of the buffer falls.

Reading needs no bound on the size of the buffer, so its lemmas are about `Lies`, which is `Stores` without
that bound.
-/

namespace Upipe.MemQueue

open Upipe.Common

/-- The queue holds exactly `frames`, oldest first. -/
structure Stores (q : MemQueue) (frames : List Frame) : Prop where
  size_ge : qControlSize + frameHeaderSize + 1 ≤ q.size
  size_lt : q.size < 256 ^ 4
  buf_length : q.buf.length = q.size
  exe_ge : qControlSize ≤ q.exeIndex
  laid : Laid 0 q.data (q.exeIndex - qControlSize) (contents frames)
  alloc_eq : q.allocIndex
    = qControlSize + Laid.tail q.data (q.exeIndex - qControlSize) (contents frames)

/-- `Stores` on a buffer of any size. -/
structure Lies (q : MemQueue) (frames : List Frame) : Prop where
  size_ge : qControlSize + frameHeaderSize + 1 ≤ q.size
  buf_length : q.buf.length = q.size
  exe_ge : qControlSize ≤ q.exeIndex
  laid : Laid 0 q.data (q.exeIndex - qControlSize) (contents frames)
  alloc_eq : q.allocIndex
    = qControlSize + Laid.tail q.data (q.exeIndex - qControlSize) (contents frames)

theorem Stores.lies {q : MemQueue} {frames : List Frame} (h : Stores q frames) : Lies q frames where
  size_ge := h.size_ge
  buf_length := h.buf_length
  exe_ge := h.exe_ge
  laid := h.laid
  alloc_eq := h.alloc_eq

theorem Lies.stores {q : MemQueue} {frames : List Frame} (h : Lies q frames) (hsize : q.size < 256 ^ 4) :
    Stores q frames where
  size_ge := h.size_ge
  size_lt := hsize
  buf_length := h.buf_length
  exe_ge := h.exe_ge
  laid := h.laid
  alloc_eq := h.alloc_eq

/-- The bytes taken by the frames on the queue. -/
def used (frames : List Frame) : ℕ := (contents frames).length

@[simp] theorem used_nil : used [] = 0 := rfl

@[simp] theorem used_cons (f : Frame) (frames : List Frame) :
    used (f :: frames) = f.raw.length + used frames := by
  rw [used, contents_cons, List.length_append, used]

@[simp] theorem used_append (frames frames' : List Frame) :
    used (frames ++ frames') = used frames + used frames' := by
  rw [used, contents_append, List.length_append, used, used]

theorem used_tail_le (frames : List Frame) : used frames.tail ≤ used frames := by
  cases frames with
  | nil => exact Nat.le_refl _
  | cons f frames =>
    rw [used_cons]
    exact Nat.le_add_left _ _

namespace Lies

variable {q q' : MemQueue} {frames : List Frame}

theorem control_le (h : Lies q frames) : qControlSize ≤ q.buf.length := by
  have := h.size_ge; have := h.buf_length; omega

theorem length_data (h : Lies q frames) : q.data.length = q.size - qControlSize := by
  rw [MemQueue.length_data, h.buf_length]

theorem exe_lt (h : Lies q frames) : q.exeIndex < q.size := by
  have := h.laid.head_lt; have := h.length_data; have := h.size_ge; omega

theorem used_le (h : Lies q frames) : used frames ≤ q.size - qControlSize := by
  have := h.laid.fits; rwa [h.length_data] at this

/-- Changes that keep the indices and the data area keep the layout. -/
theorem congr (h : Lies q frames) (hsize : q'.size = q.size)
    (hlen : q'.buf.length = q.buf.length) (hexe : q'.exeIndex = q.exeIndex)
    (halloc : q'.allocIndex = q.allocIndex) (hdata : q'.data = q.data) : Lies q' frames where
  size_ge := by rw [hsize]; exact h.size_ge
  buf_length := by rw [hlen, hsize]; exact h.buf_length
  exe_ge := by rw [hexe]; exact h.exe_ge
  laid := by rw [hdata, hexe]; exact h.laid
  alloc_eq := by rw [halloc, hdata, hexe]; exact h.alloc_eq

/-- The counters and the performance fields are no part of the layout. -/
theorem sameOff (h : Lies q frames) (hs : SameOff 34 62 q q') : Lies q' frames :=
  h.congr hs.size hs.length_eq (hs.getInt (Or.inl (by decide))) (hs.getInt (Or.inl (by decide)))
    (hs.data (by decide))

end Lies

namespace Stores

variable {q q' : MemQueue} {frames : List Frame}

theorem control_le (h : Stores q frames) : qControlSize ≤ q.buf.length := h.lies.control_le

theorem length_data (h : Stores q frames) : q.data.length = q.size - qControlSize := h.lies.length_data

theorem exe_lt (h : Stores q frames) : q.exeIndex < q.size := h.lies.exe_lt

theorem used_le (h : Stores q frames) : used frames ≤ q.size - qControlSize := h.lies.used_le

theorem alloc_ge (h : Stores q frames) : qControlSize ≤ q.allocIndex := by
  rw [h.alloc_eq]; exact Nat.le_add_right ..

theorem alloc_lt (h : Stores q frames) : q.allocIndex < q.size := by
  have hlt : Laid.tail q.data (q.exeIndex - qControlSize) (contents frames) < q.data.length :=
    Nat.mod_lt _ (Nat.zero_lt_of_lt h.laid.head_lt)
  rw [h.length_data] at hlt
  rw [h.alloc_eq]
  omega

/-- Changes that keep the indices and the data area keep the invariant. -/
theorem congr (h : Stores q frames) (hsize : q'.size = q.size)
    (hlen : q'.buf.length = q.buf.length) (hexe : q'.exeIndex = q.exeIndex)
    (halloc : q'.allocIndex = q.allocIndex) (hdata : q'.data = q.data) : Stores q' frames :=
  (h.lies.congr hsize hlen hexe halloc hdata).stores (by rw [hsize]; exact h.size_lt)

/-- The counters and the performance fields are no part of the layout. -/
theorem sameOff (h : Stores q frames) (hs : SameOff 34 62 q q') : Stores q' frames :=
  (h.lies.sameOff hs).stores (by rw [hs.size]; exact h.size_lt)

end Stores

/-! ## Writing -/

/-- The queue after `writeFrame`: a new data area, `alloc_index` and direction. -/
def written (q : MemQueue) (d : Bytes) (v : ℕ) : MemQueue :=
  ((q.withData d).withInt allocPointer 4 v).withInt directionPointer 1 1

section Written

variable {q : MemQueue} {d : Bytes}

private theorem withData_withInt_sameOff (h : qControlSize ≤ q.buf.length)
    (hd : d.length = q.data.length) (v : ℕ) :
    SameOff allocPointer (allocPointer + 4) (q.withData d) ((q.withData d).withInt allocPointer 4 v) :=
  withInt_sameOff _ _ _ (by
    rw [(withData_sameCtl h hd).length_eq]
    exact Nat.le_trans (by decide) h)

private theorem written_sameOff (h : qControlSize ≤ q.buf.length) (hd : d.length = q.data.length)
    (v : ℕ) :
    SameOff directionPointer (directionPointer + 1) ((q.withData d).withInt allocPointer 4 v)
      (q.written d v) :=
  withInt_sameOff _ _ _ (by
    rw [(withData_withInt_sameOff h hd v).length_eq, (withData_sameCtl h hd).length_eq]
    exact Nat.le_trans (by decide) h)

/-- Of the control bytes only those of the direction and of `alloc_index` change. -/
theorem written_sameCtl (h : qControlSize ≤ q.buf.length) (hd : d.length = q.data.length) (v : ℕ) :
    SameCtl 25 30 q (q.written d v) :=
  (((withData_sameCtl h hd).mono (by decide) (by decide)).trans
    ((withData_withInt_sameOff h hd v).sameCtl.mono (by decide) (by decide))).trans
      ((written_sameOff h hd v).sameCtl.mono (by decide) (by decide))

theorem data_written (h : qControlSize ≤ q.buf.length) (hd : d.length = q.data.length) (v : ℕ) :
    (q.written d v).data = d := by
  rw [(written_sameOff h hd v).data (by decide), (withData_withInt_sameOff h hd v).data (by decide),
    data_withData h]

theorem allocIndex_written (h : qControlSize ≤ q.buf.length) (hd : d.length = q.data.length) {v : ℕ}
    (hv : v < 256 ^ 4) : (q.written d v).allocIndex = v := by
  have hfield : allocPointer + 4 ≤ (q.withData d).buf.length := by
    rw [(withData_sameCtl h hd).length_eq]
    exact Nat.le_trans (by decide) h
  rw [allocIndex, (written_sameOff h hd v).getInt (Or.inr (by decide)), getInt_withInt hfield hv]

/-- The two setters at the end of `writeFrame`, whatever data was written before. -/
private theorem setIndices_ok (h : qControlSize ≤ q.buf.length) (hd : d.length = q.data.length)
    {v : ℕ} (hv : v < 256 ^ 4) :
    (setInt allocPointer 4 (v : ℤ) >>= fun _ => setInt directionPointer 1 (1 : ℕ)) (q.withData d)
      = .ok () (q.written d v) := by
  have hlen := (withData_sameCtl h hd).length_eq
  have hfield : allocPointer + 4 ≤ (q.withData d).buf.length := by
    rw [hlen]
    exact Nat.le_trans (by decide) h
  have hfield' : directionPointer + 1 ≤ ((q.withData d).withInt allocPointer 4 v).buf.length := by
    rw [(withData_withInt_sameOff h hd v).length_eq, hlen]
    exact Nat.le_trans (by decide) h
  rw [bind_ok (setInt_ok hfield hv)]
  exact setInt_ok hfield' (by decide)

end Written

/-- The address `n` bytes behind `alloc_index` on the ring. -/
def allocAfter (q : MemQueue) (n : ℕ) : ℕ :=
  qControlSize + (q.allocIndex - qControlSize + n) % q.data.length

/-- `writeFrame` puts `d` into the data area, which seen from `alloc_index` starts with the frame, before it
sets `alloc_index` and the direction. -/
structure Places (q : MemQueue) (frame d : Bytes) : Prop where
  length_eq : d.length = q.data.length
  rotate_eq : d.rotate (q.allocIndex - qControlSize)
    = frame ++ (q.data.rotate (q.allocIndex - qControlSize)).drop frame.length
  call_eq : writeFrame frame q
    = (setInt allocPointer 4 (q.allocAfter frame.length : ℕ) >>= fun _ => setInt directionPointer 1 (1 : ℕ))
        (q.withData d)

/-- `writeFrame` leaves `d` in the data area, which seen from `alloc_index` starts with the frame, and
moves `alloc_index` behind the frame. -/
structure Writes (q : MemQueue) (frame d : Bytes) : Prop where
  length_eq : d.length = q.data.length
  rotate_eq : d.rotate (q.allocIndex - qControlSize)
    = frame ++ (q.data.rotate (q.allocIndex - qControlSize)).drop frame.length
  call_eq : writeFrame frame q = .ok () (q.written d
    (qControlSize + (q.allocIndex - qControlSize + frame.length) % q.data.length))

section WriteFrame

variable {q : MemQueue} {frame : Bytes}

/-- The frame reaches the end of the buffer: two stores. -/
private theorem writeFrame_of_wrap (hbuf : q.buf.length = q.size) (hge : qControlSize ≤ q.allocIndex)
    (hlt : q.allocIndex < q.size) (hfit : frame.length ≤ q.size - qControlSize)
    (hwrap : q.size - q.allocIndex ≤ frame.length) : ∃ d, Places q frame d := by
  have hc : qControlSize = 64 := rfl
  have hdata : q.data.length = q.size - qControlSize := by rw [MemQueue.length_data, hbuf]
  set p := q.allocIndex with hp
  set n := frame.length with hn
  set e := q.size - p with he
  have htake : (frame.take e).length = e := by rw [List.length_take]; omega
  have hdrop : (frame.drop e).length = n - e := List.length_drop ..
  set d₁ := patch q.data (p - qControlSize) (frame.take e) with hd₁
  have hl₁ : d₁.length = q.data.length := length_patch (by omega)
  set d₂ := patch d₁ 0 (frame.drop e) with hd₂
  have hl₂ : d₂.length = q.data.length := by rw [hd₂, length_patch (by omega), hl₁]
  have hmod : (p - qControlSize + n) % q.data.length = n - e := by
    rw [Nat.mod_eq_sub_mod (by omega), Nat.mod_eq_of_lt (by omega)]
    omega
  have hrot : d₂.rotate (p - qControlSize)
      = frame ++ (q.data.rotate (p - qControlSize)).drop n := by
    have := rotate_patch_of_wrap (p := p - qControlSize) (by omega)
      (show q.data.length ≤ p - qControlSize + frame.length by omega) (by omega)
    rwa [show q.data.length - (p - qControlSize) = e from by omega] at this
  have st₁ : store p (p + ((q.size : ℤ) - p)) (pySlice frame 0 ((q.size : ℤ) - p)) q
      = .ok () (q.withData d₁) := by
    rw [pySlice_of_le (by omega) (by omega) (by omega) (by omega), Int.toNat_zero, slice_zero,
      show ((q.size : ℤ) - p).toNat = e from by omega]
    exact store_data rfl hge (by omega) (by omega)
  have st₂ : store dataStartPoint (dataStartPoint + ((n : ℤ) - ((q.size : ℤ) - p)))
      (pySlice frame ((q.size : ℤ) - p) frame.length) (q.withData d₁)
        = .ok () (q.withData d₂) := by
    have hs : dataStartPoint = 64 := rfl
    have hb : (q.withData d₁).buf.length = q.buf.length :=
      (withData_sameCtl (by omega) hl₁).length_eq
    rw [pySlice_of_le (by omega) (by omega) (by omega) (by omega), Int.toNat_natCast,
      slice_to_end, show ((q.size : ℤ) - p).toNat = e from by omega,
      store_data (p := dataStartPoint) rfl (Nat.le_refl _) (by omega) (by omega),
      withData_withData (by omega), data_withData (by omega)]
    rfl
  refine ⟨d₂, hl₂, hrot, ?_⟩
  rw [writeFrame, get_bind_apply, if_pos (by omega), bind_ok st₁, bind_ok st₂, allocAfter, ← hp, hmod,
    show (dataStartPoint : ℤ) + ((n : ℤ) - ((q.size : ℤ) - p)) = (qControlSize + (n - e) : ℕ) from by
      simp only [dataStartPoint]; omega]
  rfl

/-- The frame ends before the end of the buffer: one store. -/
private theorem writeFrame_of_fit (hbuf : q.buf.length = q.size) (hge : qControlSize ≤ q.allocIndex)
    (hfit : q.allocIndex + frame.length < q.size) : ∃ d, Places q frame d := by
  have hdata : q.data.length = q.size - qControlSize := by rw [MemQueue.length_data, hbuf]
  set p := q.allocIndex with hp
  set n := frame.length with hn
  set d := patch q.data (p - qControlSize) frame with hd
  have hl : d.length = q.data.length := length_patch (by omega)
  have hmod : (p - qControlSize + n) % q.data.length = p - qControlSize + n :=
    Nat.mod_eq_of_lt (by omega)
  have st : store p (p + (n : ℤ)) frame q = .ok () (q.withData d) :=
    store_data rfl hge (by omega) (by omega)
  -- the second read of `alloc_index` finds it unchanged
  have hp' : (q.withData d).allocIndex = p :=
    (withData_sameCtl (by omega) hl).getInt (by decide) (Or.inr (Nat.zero_le _))
  refine ⟨d, hl, rotate_patch_of_fit (by omega), ?_⟩
  rw [writeFrame, get_bind_apply, if_neg (by omega), bind_ok st, get_bind_apply, hp', allocAfter, ← hp,
    hmod, show (p : ℤ) + (n : ℤ) = (qControlSize + (p - qControlSize + n) : ℕ) from by omega]
  rfl

/-- What `writeFrame` writes, wherever the end of the buffer falls. -/
theorem writeFrame_places (hbuf : q.buf.length = q.size) (hge : qControlSize ≤ q.allocIndex)
    (hlt : q.allocIndex < q.size) (hfit : frame.length ≤ q.size - qControlSize) :
    ∃ d, Places q frame d := by
  rcases Nat.lt_or_ge (q.allocIndex + frame.length) q.size with hend | hend
  · exact writeFrame_of_fit hbuf hge hend
  · exact writeFrame_of_wrap hbuf hge hlt hfit (by omega)

/-- The effect of `writeFrame`, when the new `alloc_index` fits its four bytes. -/
theorem Places.writes {d : Bytes} (h : Places q frame d) (hcontrol : qControlSize ≤ q.buf.length)
    (hval : q.allocAfter frame.length < 256 ^ 4) : Writes q frame d where
  length_eq := h.length_eq
  rotate_eq := h.rotate_eq
  call_eq := h.call_eq.trans (setIndices_ok hcontrol h.length_eq hval)

theorem allocAfter_lt (hbuf : q.buf.length = q.size) (hlt : qControlSize < q.size)
    (hsize : q.size < 256 ^ 4) (n : ℕ) : q.allocAfter n < 256 ^ 4 := by
  have hdata : q.data.length = q.size - qControlSize := by rw [MemQueue.length_data, hbuf]
  have hmod : (q.allocIndex - qControlSize + n) % q.data.length < q.data.length :=
    Nat.mod_lt _ (by omega)
  rw [allocAfter]
  omega

/-- The effect of `writeFrame` on a queue of fewer than `2 ^ 32` bytes. -/
theorem writeFrame_eq (hbuf : q.buf.length = q.size) (hge : qControlSize ≤ q.allocIndex)
    (hlt : q.allocIndex < q.size) (hsize : q.size < 256 ^ 4)
    (hfit : frame.length ≤ q.size - qControlSize) : ∃ d, Writes q frame d := by
  obtain ⟨d, hd⟩ := writeFrame_places hbuf hge hlt hfit
  exact ⟨d, hd.writes (by omega) (allocAfter_lt hbuf (by omega) hsize _)⟩

end WriteFrame

/-- `writeFrame` appends a frame that fits behind the stored ones. -/
theorem writeFrame_stores {q : MemQueue} {frames : List Frame} (h : Stores q frames) (f : Frame)
    (hfit : used frames + f.raw.length ≤ q.size - qControlSize) :
    ∃ q', writeFrame f.raw q = .ok () q' ∧ Stores q' (frames ++ [f]) ∧ SameCtl 25 30 q q' := by
  obtain ⟨d, hd, hrot, heq⟩ :=
    writeFrame_eq h.buf_length h.alloc_ge h.alloc_lt h.size_lt
      (show f.raw.length ≤ q.size - qControlSize by omega)
  set v := qControlSize + (q.allocIndex - qControlSize + f.raw.length) % q.data.length with hv
  have hctl := written_sameCtl h.control_le hd v
  have hdata := data_written h.control_le hd v
  have htail : q.allocIndex - qControlSize
      = Laid.tail q.data (q.exeIndex - qControlSize) (contents frames) := by
    rw [h.alloc_eq, Nat.add_sub_cancel_left]
  have hexe : (q.written d v).exeIndex = q.exeIndex := hctl.getInt (by decide) (Or.inr (by decide))
  have hval : v < 256 ^ 4 := by
    have hlt : (q.allocIndex - qControlSize + f.raw.length) % q.data.length < q.data.length :=
      Nat.mod_lt _ (Nat.zero_lt_of_lt h.laid.head_lt)
    have := h.length_data; have := h.size_lt
    omega
  refine ⟨_, heq, ?_, hctl⟩
  exact {
    size_ge := h.size_ge
    size_lt := h.size_lt
    buf_length := hctl.length_eq.trans h.buf_length
    exe_ge := by rw [hexe]; exact h.exe_ge
    laid := by
      rw [hdata, hexe, contents_append, contents_cons, contents_nil, List.append_nil]
      exact h.laid.push (by rw [h.length_data]; exact hfit) hd (by rw [← htail]; exact hrot)
    alloc_eq := by
      rw [allocIndex_written h.control_le hd hval, hdata, hexe, hv, htail, contents_append,
        contents_cons, contents_nil, List.append_nil, Laid.tail, Laid.tail, Nat.mod_add_mod, hd,
        List.length_append, Nat.add_assoc] }

/-! ## Reading -/

/-- A slice behind the control bytes is a slice of the data area. -/
theorem slice_buf {q : MemQueue} {lo hi : ℕ} (hlo : qControlSize ≤ lo)
    (h : qControlSize ≤ q.buf.length) :
    slice q.buf lo hi = slice q.data (lo - qControlSize) (hi - qControlSize) := by
  have htake : (q.buf.take qControlSize).length = qControlSize := by
    rw [List.length_take]; omega
  rw [MemQueue.data]
  conv_lhs => enter [1]; rw [← List.take_append_drop qControlSize q.buf]
  rw [slice_append_right (by omega), htake]

/-- A read that ends before the end of the buffer. -/
theorem read_of_fit {q : MemQueue} {p n : ℕ} (hp : qControlSize ≤ p) (h : p + n ≤ q.buf.length) :
    pySlice q.buf p ((p : ℤ) + n) = (q.data.rotate (p - qControlSize)).take n := by
  rw [pySlice_of_le (by omega) (by omega) (by omega) (by omega), Int.toNat_natCast,
    show ((p : ℤ) + n).toNat = p + n from by omega, slice_buf hp (by omega),
    rotate_take_of_fit (by rw [length_data]; omega)]
  congr 1
  omega

/-- A read that goes on behind the control bytes. -/
theorem read_of_wrap {q : MemQueue} {p n : ℕ} (hp : qControlSize ≤ p) (hlt : p < q.size)
    (hbuf : q.buf.length = q.size) (hwrap : q.size ≤ p + n) (hn : n ≤ q.size - qControlSize) :
    pySlice q.buf p q.buf.length
        ++ pySlice q.buf dataStartPoint ((dataStartPoint : ℤ) + n - ((q.size : ℤ) - p))
      = (q.data.rotate (p - qControlSize)).take n := by
  have hs : dataStartPoint = qControlSize := rfl
  have hdata : q.data.length = q.size - qControlSize := by rw [length_data, hbuf]
  rw [rotate_take_of_wrap (by omega) (by omega) (by omega),
    pySlice_of_le (by omega) (by omega) (by omega) (by omega), Int.toNat_natCast,
    Int.toNat_natCast, slice_to_end, pySlice_of_le (by omega) (by omega) (by omega) (by omega),
    Int.toNat_natCast, slice_buf (by omega) (by omega), hs, Nat.sub_self, slice_zero]
  congr 1
  · rw [MemQueue.data, List.drop_drop]
    congr 1
    omega
  · congr 1
    omega

variable {q : MemQueue} {f : Frame} {frames : List Frame}

/-- The header read at `exe_index`, on any layout. -/
theorem readFrameHeader_eq (h : Lies q frames) :
    q.readFrameHeader = (q.data.rotate (q.exeIndex - qControlSize)).take frameHeaderSize := by
  have := h.size_ge; have := h.exe_ge; have := h.exe_lt; have := h.buf_length
  rw [readFrameHeader]
  split
  · exact read_of_fit h.exe_ge (by omega)
  · exact read_of_wrap h.exe_ge h.exe_lt h.buf_length (by omega) (by omega)

/-- On an empty queue the header bytes are zero. -/
theorem readFrameHeader_nil (h : Lies q []) :
    q.readFrameHeader = List.replicate frameHeaderSize 0 := by
  have := h.size_ge; have := h.length_data
  rw [readFrameHeader_eq h, h.laid.rotate_eq, contents_nil, List.nil_append, List.length_nil,
    List.take_replicate, Nat.min_eq_left (by omega)]

theorem readFrameHeader_cons (h : Lies q (f :: frames)) :
    q.readFrameHeader = f.raw.take frameHeaderSize := by
  have := f.header_le
  rw [readFrameHeader_eq h, h.laid.read (by rw [contents_cons, List.length_append]; omega),
    contents_cons, List.take_append_of_le_length f.header_le]

/-- The body of the first frame. -/
theorem readFrameData_cons (h : Lies q (f :: frames)) :
    q.readFrameData ((f.raw.length : ℤ) - frameHeaderSize) = .ok f.body := by
  have hh : frameHeaderSize = 32 := rfl
  have hc : qControlSize = 64 := rfl
  have := h.size_ge; have := h.exe_ge; have := h.exe_lt; have hbuf := h.buf_length
  have hle := f.header_le
  have hused := h.used_le
  rw [used_cons] at hused
  have hdata := h.length_data
  set n := f.raw.length - frameHeaderSize with hn
  have hcast : (f.raw.length : ℤ) - frameHeaderSize = (n : ℤ) := by omega
  -- the data pointer is the position 32 cells behind `exe_index` on the ring
  have hptr : q.frameDataPointer
      = qControlSize + (q.exeIndex - qControlSize + frameHeaderSize) % q.data.length := by
    rw [frameDataPointer]
    split
    · rw [Nat.mod_eq_sub_mod (by omega), Nat.mod_eq_of_lt (by omega),
        Nat.mod_eq_sub_mod (by omega), Nat.mod_eq_of_lt (by omega)]
      simp only [dataStartPoint]
      omega
    · rw [Nat.mod_eq_of_lt (by omega)]
      omega
  have hlt : (q.exeIndex - qControlSize + frameHeaderSize) % q.data.length < q.data.length :=
    Nat.mod_lt _ (by omega)
  have hbody : (q.data.rotate (q.frameDataPointer - qControlSize)).take n = f.body := by
    have hraw : f.raw.take frameHeaderSize ++ f.body = f.raw := List.take_append_drop ..
    have htl : (f.raw.take frameHeaderSize).length = frameHeaderSize := by
      rw [List.length_take]; omega
    have hbl : f.body.length = n := List.length_drop ..
    rw [hptr, Nat.add_sub_cancel_left, List.rotate_mod, ← List.rotate_rotate, h.laid.rotate_eq,
      contents_cons, ← hraw, List.append_assoc, List.append_assoc]
    conv_lhs => enter [2, 2]; rw [← htl]
    rw [List.rotate_append_length_eq, List.append_assoc, ← hbl, List.take_left]
  rw [readFrameData, hcast, byteArray, if_neg (by omega)]
  show (if (q.frameDataPointer : ℤ) + n < q.size then _ else _) = _
  by_cases hfit : (q.frameDataPointer : ℤ) + n < q.size
  · rw [if_pos hfit, read_of_fit (by omega) (by omega), hbody]
    rfl
  · rw [if_neg hfit, read_of_wrap (by omega) (by omega) hbuf (by omega) (by omega), hbody]
    rfl

/-! ## Clearing -/

/-- A frame that reaches the end of the buffer is cleared with two stores. -/
theorem clearExecutedFrame_wrap {n : ℕ} (hle : q.exeIndex ≤ q.size) (hwrap : q.size ≤ q.exeIndex + n) :
    clearExecutedFrame n q
      = (store q.exeIndex q.buf.length (List.replicate (q.size - q.exeIndex) 0) >>= fun _ =>
          store dataStartPoint ((dataStartPoint : ℤ) + n - ((q.size : ℤ) - q.exeIndex))
            (List.replicate (n - (q.size - q.exeIndex)) 0)) q := by
  have hfirst : byteArray ((q.size : ℤ) - q.exeIndex) = .ok (List.replicate (q.size - q.exeIndex) 0) := by
    rw [byteArray, if_neg (by omega), show ((q.size : ℤ) - q.exeIndex).toNat = q.size - q.exeIndex by omega]
  have hsecond : byteArray ((n : ℤ) - ((q.size : ℤ) - q.exeIndex))
      = .ok (List.replicate (n - (q.size - q.exeIndex)) 0) := by
    rw [byteArray, if_neg (by omega),
      show ((n : ℤ) - ((q.size : ℤ) - q.exeIndex)).toNat = n - (q.size - q.exeIndex) by omega]
  rw [clearExecutedFrame, get_bind_apply, if_neg (by omega), hfirst, bind_ok (ofExcept_ok _ q), hsecond]
  rfl

/-- Zeroing `n` bytes from `exe_index` on, wherever the end of the buffer falls. -/
theorem clearExecutedFrame_eq (h : Lies q frames) {n : ℕ} (hn : n ≤ q.size - qControlSize) :
    ∃ d, d.length = q.data.length ∧
      d.rotate (q.exeIndex - qControlSize)
        = List.replicate n 0 ++ (q.data.rotate (q.exeIndex - qControlSize)).drop n ∧
      clearExecutedFrame n q = .ok () (q.withData d) := by
  have hc : qControlSize = 64 := rfl
  have := h.size_ge; have hge := h.exe_ge; have := h.exe_lt; have hbuf := h.buf_length
  have hdata := h.length_data
  set p := q.exeIndex with hp
  have hrep : (List.replicate n (0 : UInt8)).length = n := List.length_replicate ..
  by_cases hfit : p + n < q.size
  · refine ⟨patch q.data (p - qControlSize) (List.replicate n 0), length_patch (by omega), ?_, ?_⟩
    · rw [rotate_patch_of_fit (by omega), hrep]
    · rw [clearExecutedFrame, get_bind_apply, if_pos hfit]
      exact store_data rfl hge (by omega) (by omega)
  -- two stores: `e` zeros up to the end of the buffer, the others from its start
  · set e := q.size - p with he
    set d₁ := patch q.data (p - qControlSize) (List.replicate e 0) with hd₁
    have hl₁ : d₁.length = q.data.length := length_patch (by rw [List.length_replicate]; omega)
    set d₂ := patch d₁ 0 (List.replicate (n - e) 0) with hd₂
    have hl₂ : d₂.length = q.data.length := by
      rw [hd₂, length_patch (by rw [List.length_replicate]; omega), hl₁]
    refine ⟨d₂, hl₂, ?_, ?_⟩
    · have hrot := rotate_patch_of_wrap (p := p - qControlSize) (by omega)
        (show q.data.length ≤ p - qControlSize + (List.replicate n (0 : UInt8)).length by omega)
        (by omega)
      rw [show q.data.length - (p - qControlSize) = e from by omega, List.take_replicate,
        List.drop_replicate, Nat.min_eq_left (by omega), hrep] at hrot
      exact hrot
    · have hb : (q.withData d₁).buf.length = q.buf.length :=
        (withData_sameCtl h.control_le hl₁).length_eq
      have hs : dataStartPoint = 64 := rfl
      have st₁ : store p q.buf.length (List.replicate e 0) q = .ok () (q.withData d₁) :=
        store_data rfl hge (by omega) (by rw [List.length_replicate]; omega)
      have st₂ : store dataStartPoint ((dataStartPoint : ℤ) + n - ((q.size : ℤ) - p))
          (List.replicate (n - e) 0) (q.withData d₁) = .ok () (q.withData d₂) := by
        rw [store_data (p := dataStartPoint) rfl (Nat.le_refl _) (by omega)
            (by rw [List.length_replicate]; omega),
          withData_withData h.control_le, data_withData h.control_le]
        rfl
      rw [clearExecutedFrame_wrap (Nat.le_of_lt h.exe_lt) (by omega), ← hp, ← he, bind_ok st₁]
      exact st₂

/-- Moving `exe_index` on the ring, wherever the end of the buffer falls. -/
theorem updateExecutionIndex_eq (hbuf : q.buf.length = q.size) (hge : qControlSize ≤ q.exeIndex)
    (hlt : q.exeIndex < q.size) {n : ℕ} (hn : n ≤ q.size - qControlSize)
    (hval : qControlSize + (q.exeIndex - qControlSize + n) % q.data.length < 256 ^ 4) :
    updateExecutionIndex n q = .ok () (q.withInt exePointer 4
      (qControlSize + (q.exeIndex - qControlSize + n) % q.data.length)) := by
  have hc : qControlSize = 64 := rfl
  have hdata : q.data.length = q.size - qControlSize := by rw [MemQueue.length_data, hbuf]
  have hfield : exePointer + 4 ≤ q.buf.length := by
    simp only [exePointer]
    omega
  rw [updateExecutionIndex, get_bind_apply, ← setInt_ok hfield hval]
  split
  · rw [Nat.mod_eq_of_lt (by omega)]
    congr 2
    omega
  · rw [Nat.mod_eq_sub_mod (by omega), Nat.mod_eq_of_lt (by omega), Nat.mod_eq_sub_mod (by omega),
      Nat.mod_eq_of_lt (by omega)]
    congr 2
    simp only [dataStartPoint]
    omega

/-- The address behind the first frame. -/
def addressBehind (q : MemQueue) (f : Frame) : ℕ :=
  qControlSize + (q.exeIndex - qControlSize + f.raw.length) % q.data.length

/-- Clearing the first frame and moving `exe_index` behind it removes it from the queue. -/
theorem clear_and_advance (h : Lies q (f :: frames)) (hval : q.addressBehind f < 256 ^ 4) :
    ∃ q₀ q₁, clearExecutedFrame f.raw.length q = .ok () q₀ ∧
      updateExecutionIndex f.raw.length q₀ = .ok () q₁ ∧
      Lies q₁ frames ∧ SameCtl 30 34 q q₁ ∧ q₁.exeIndex = q.addressBehind f := by
  have hc : qControlSize = 64 := rfl
  have hfit : f.raw.length ≤ q.size - qControlSize := by
    have hused := h.used_le
    rw [used_cons] at hused
    omega
  obtain ⟨d, hd, hrot, hclear⟩ := clearExecutedFrame_eq h hfit
  have s₀ := withData_sameCtl h.control_le hd
  have hexe₀ : (q.withData d).exeIndex = q.exeIndex :=
    s₀.getInt (by decide) (Or.inr (Nat.zero_le _))
  have hdata₀ : (q.withData d).data = d := data_withData h.control_le
  have hupdate := updateExecutionIndex_eq (q := q.withData d) (s₀.length_eq.trans h.buf_length)
    (hexe₀ ▸ h.exe_ge) (hexe₀ ▸ h.exe_lt) hfit (by rw [hexe₀, hdata₀, hd]; exact hval)
  rw [hexe₀, hdata₀, hd] at hupdate
  set v := qControlSize + (q.exeIndex - qControlSize + f.raw.length) % q.data.length with hv
  have hfield : exePointer + 4 ≤ (q.withData d).buf.length := by
    rw [s₀.length_eq]
    exact Nat.le_trans (by decide) h.control_le
  have s₁ : SameOff exePointer (exePointer + 4) (q.withData d)
      ((q.withData d).withInt exePointer 4 v) := withInt_sameOff _ _ _ hfield
  -- of the control bytes only those of `exe_index` change
  have hctl : SameCtl 30 34 q ((q.withData d).withInt exePointer 4 v) :=
    (s₀.mono (by decide) (by decide)).trans (s₁.sameCtl.mono (by decide) (by decide))
  have hdata₁ : ((q.withData d).withInt exePointer 4 v).data = d := by
    rw [s₁.data (by decide), hdata₀]
  have hexe₁ : ((q.withData d).withInt exePointer 4 v).exeIndex = v := getInt_withInt hfield hval
  have hhead : v - qControlSize = (q.exeIndex - qControlSize + f.raw.length) % q.data.length := by
    omega
  refine ⟨_, _, hclear, hupdate, ?_, hctl, hexe₁⟩
  exact {
    size_ge := h.size_ge
    buf_length := hctl.length_eq.trans h.buf_length
    exe_ge := by rw [hexe₁]; exact Nat.le_add_right ..
    laid := by
      rw [hdata₁, hexe₁, hhead]
      exact (contents_cons f frames ▸ h.laid).pop hd hrot
    alloc_eq := by
      have halloc : ((q.withData d).withInt exePointer 4 v).allocIndex = q.allocIndex :=
        hctl.getInt (by decide) (Or.inl (by decide))
      rw [halloc, h.alloc_eq, hdata₁, hexe₁, hhead, contents_cons, Laid.tail, Laid.tail, hd,
        Nat.mod_add_mod, List.length_append, Nat.add_assoc] }

/-- On a queue of fewer than `2 ^ 32` bytes every address fits `exe_index`. -/
theorem Stores.addressBehind_lt (h : Stores q frames) : q.addressBehind f < 256 ^ 4 := by
  have hmod : (q.exeIndex - qControlSize + f.raw.length) % q.data.length < q.data.length :=
    Nat.mod_lt _ (Nat.zero_lt_of_lt h.laid.head_lt)
  have := h.size_lt
  have := h.size_ge
  have := h.length_data
  rw [addressBehind]
  omega

end Upipe.MemQueue
