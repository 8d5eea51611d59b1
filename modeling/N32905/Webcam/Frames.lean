import Mathlib.Data.List.Forall2
import Mathlib.Data.List.ModifyLast
import Mathlib.Data.List.Perm.Basic
import Mathlib.Logic.Function.Basic
import N32905.Lib.Run
import N32905.Webcam.Pool

/-!
# The frames of the webcam demo

`cam_start` queues all buffers with the driver and `cam_read` takes them out again one
at a time: for the JPEG engine, for a file if a key was released, and back to the driver
(`cam_lib.c`). The driver stores into any buffer it has, at any time.
-/

namespace N32905.Webcam

open N32905.Lib

/-! ## The model -/

/-- The `buffers` and the modes, once `init_mmap` is through. What the driver stores and what
`jpegDec` copies to is apart: in pool mode nothing is copied. -/
structure Setup where
  buffers : List Buffer
  enable_preview : Bool
  user_memorypool_enable : Bool
  bitstream_vaddress : BitVec 32
  apart : buffers.Pairwise fun b b' => b.span.Disjoint b'.span
  bitstream_apart : user_memorypool_enable = false → ∀ b ∈ buffers, ∀ b' ∈ buffers,
    (⟨bitstream_vaddress.toNat, b.length.toNat⟩ : Span).Disjoint b'.span

/-- The two fields of a dequeued `struct v4l2_buffer` that are used. -/
structure V4l2Buffer where
  index : Nat
  bytesused : Nat

/-- What the engine fetched, and what its source buffer held when the `read` returned. -/
structure Decoded where
  fetched : List Byte
  bitstream : List Byte

/-- What a call of `cam_read` passed on: to the engine, and the file if one was written without an
error. -/
structure Seen where
  engine : Option Decoded
  file : Option (List Byte)

inductive Pc
  /-- the loop of `start_capturing` -/
  | start (i : Nat)
  | dequeue
  /-- the `memcpy` of `jpegDec` -/
  | copy (buf : V4l2Buffer) (k : Nat)
  /-- `JPEG_TRIGGER`, until the `read` returns -/
  | decode (buf : V4l2Buffer) (fetched : List Byte)
  | keypad (buf : V4l2Buffer) (engine : Option Decoded)
  /-- `Write2File`; `clean` until a `write` fails -/
  | write (buf : V4l2Buffer) (engine : Option Decoded) (totalcnt : BitVec 32) (file : List Byte)
    (clean : Bool)
  | requeue (buf : V4l2Buffer) (seen : Seen)
  | stopped

/-- The memory, the queues of the driver, and the demo. `captured` and `reads` are all that was
filled and all that was read so far. -/
structure Cam where
  mem : Nat → Byte
  streaming : Bool
  incoming : List Nat
  outgoing : List V4l2Buffer
  captured : List (List Byte)
  reads : List Seen
  pc : Pc

/-- What happens next. A `bool` is the answer of a call. -/
inductive Event
  /-- the driver stores a byte into a buffer that is queued -/
  | store (index off : Nat) (v : Byte)
  /-- the driver is done with a buffer -/
  | fill (index bytesused : Nat)
  | qbuf (ok : Bool)
  | streamon (ok : Bool)
  | dqbuf (ok : Bool)
  | copied
  | fetch
  | decoded
  /-- the key, and that the file could be opened -/
  | key (save : Bool)
  /-- a call of `write` for `n` bytes is `n` of these -/
  | wrote (ok : Bool)
  | closed

namespace Setup
variable (c : Setup)

def span (index : Nat) : Span := (c.buffers[index]?.getD ⟨0, 0⟩).span

/-- What is in a buffer. -/
def frame (mem : Nat → Byte) (buf : V4l2Buffer) : List Byte :=
  (List.range buf.bytesused).map fun k => mem ((c.span buf.index).off + k)

def source (buf : V4l2Buffer) : Nat :=
  if c.user_memorypool_enable then (c.span buf.index).off else c.bitstream_vaddress.toNat

def src_bufsize : Nat := 100 * 1024

def bitstream (mem : Nat → Byte) (buf : V4l2Buffer) : List Byte :=
  (List.range src_bufsize).map fun k => mem (c.source buf + k)

/-- `cam_stop`: `VIDIOC_STREAMOFF` empties both queues. -/
def stop (s : Cam) : Cam :=
  { s with streaming := false, incoming := [], outgoing := [], pc := .stopped }

/-- `cam_read`, after `VIDIOC_DQBUF`. -/
def dequeued (buf : V4l2Buffer) : Pc :=
  if c.enable_preview then
    if c.user_memorypool_enable then .decode buf [] else .copy buf 0
  else .keypad buf none

def driverStep (s : Cam) : Event → Option Cam
  | .store index off v =>
    if s.streaming ∧ index ∈ s.incoming ∧ off < (c.span index).len then
      some { s with mem := Function.update s.mem ((c.span index).off + off) v }
    else none
  | .fill index bytesused =>
    if s.streaming ∧ index ∈ s.incoming ∧ bytesused ≤ (c.span index).len then
      some { s with
        incoming := s.incoming.erase index
        outgoing := s.outgoing ++ [⟨index, bytesused⟩]
        captured := s.captured ++ [c.frame s.mem ⟨index, bytesused⟩] }
    else none
  | _ => none

/-- The demo. `VIDIOC_DQBUF` waits while nothing is filled. -/
def demoStep (s : Cam) : Pc → Event → Option Cam
  | .start i, .qbuf ok =>
    if i < c.buffers.length then
      if ok then some { s with incoming := s.incoming ++ [i], pc := .start (i + 1) }
      else some (stop s)
    else none
  | .start i, .streamon ok =>
    if i < c.buffers.length then none
    else if ok then some { s with streaming := true, pc := .dequeue } else some (stop s)
  | .dequeue, .dqbuf true =>
    match s.outgoing with
    | [] => none
    | buf :: rest => some { s with outgoing := rest, pc := c.dequeued buf }
  | .dequeue, .dqbuf false => some (stop s)
  | .copy buf k, .copied =>
    if k < buf.bytesused then
      let byte := s.mem ((c.span buf.index).off + k)
      some { s with
        mem := Function.update s.mem (c.bitstream_vaddress.toNat + k) byte
        pc := .copy buf (k + 1) }
    else some { s with pc := .decode buf [] }
  | .decode buf fetched, .fetch =>
    if fetched.length < src_bufsize then
      some { s with pc := .decode buf (fetched ++ [s.mem (c.source buf + fetched.length)]) }
    else none
  | .decode buf fetched, .decoded =>
    some { s with pc := .keypad buf (some ⟨fetched, c.bitstream s.mem buf⟩) }
  | .keypad buf engine, .key save =>
    some { s with pc := if save then .write buf engine 0 [] true else .requeue buf ⟨engine, none⟩ }
  | .write buf engine totalcnt file clean, .wrote ok =>
    if totalcnt.toNat < buf.bytesused then
      if ok then
        let byte := s.mem ((c.span buf.index).off + totalcnt.toNat)
        some { s with pc := .write buf engine (totalcnt + 1) (file ++ [byte]) clean }
      -- `wlen < 0` is never true: the -1 is added
      else some { s with pc := .write buf engine (totalcnt - 1) file false }
    else none
  | .write buf engine totalcnt file clean, .closed =>
    if totalcnt.toNat < buf.bytesused then none
    else some { s with pc := .requeue buf ⟨engine, if clean then some file else none⟩ }
  | .requeue buf seen, .qbuf ok =>
    if ok then
      some { s with incoming := s.incoming ++ [buf.index], reads := s.reads ++ [seen], pc := .dequeue }
    else some (stop { s with reads := s.reads ++ [seen] })
  | _, _ => none

def step (s : Cam) : Event → Option Cam
  | .store index off v => c.driverStep s (.store index off v)
  | .fill index bytesused => c.driverStep s (.fill index bytesused)
  | e => c.demoStep s s.pc e

/-- `start_capturing`, with anything in the memory. -/
def begin (mem : Nat → Byte) : Cam :=
  { mem := mem, streaming := false, incoming := [], outgoing := [], captured := [], reads := [],
    pc := .start 0 }

end Setup

/-! ## What the calls were told -/

/-- The answers to a call of `cam_read`: that a key was released and the file could be opened, and
that no `write` failed. -/
structure Call where
  save : Bool
  clean : Bool

def noteCall (calls : List Call) : Event → List Call
  | .key save => calls ++ [⟨save, true⟩]
  | .wrote false => calls.modifyLast fun call => { call with clean := false }
  | _ => calls

def calls (es : List Event) : List Call := es.foldl noteCall []

theorem calls_concat (es : List Event) (e : Event) : calls (es ++ [e]) = noteCall (calls es) e :=
  List.foldl_concat ..

/-! ## Whose buffer it is -/

def Pc.held : Pc → Option V4l2Buffer
  | .copy buf _ | .decode buf _ | .keypad buf _ | .write buf _ _ _ _ | .requeue buf _ => some buf
  | _ => none

/-- The buffers not with the driver: those not queued yet, or the one taken out. -/
def Pc.kept (n : Nat) : Pc → List Nat
  | .start i => List.range' i (n - i)
  | pc => pc.held.toList.map V4l2Buffer.index

def Agrees (bytes frame : List Byte) : Prop := bytes.take frame.length = frame.take bytes.length

/-- In preview mode the engine had the frame, as much of it as its source buffer takes, and fetched
that. -/
structure Setup.Shown (c : Setup) (engine : Option Decoded) (frame : List Byte) : Prop where
  preview : engine.isSome = c.enable_preview
  fetched : ∀ d, engine = some d → Agrees d.fetched frame
  bitstream : ∀ d, engine = some d → d.bitstream.take frame.length = frame.take Setup.src_bufsize

/-- The engine had the frame, and the file is the frame if a key was released and no call for
it failed. -/
structure Setup.Faithful (c : Setup) (call : Call) (seen : Seen) (frame : List Byte) : Prop where
  engine : c.Shown seen.engine frame
  file : seen.file = if call.save && call.clean then some frame else none

namespace Setup
variable (c : Setup)

/-- What the demo has made of the frame it holds. `call` is what it was told. -/
def Pending (s : Cam) (frame : List Byte) (call : Option Call) : Pc → Prop
  | .copy _ k => call = none ∧ c.enable_preview = true ∧ c.user_memorypool_enable = false ∧
      k ≤ frame.length ∧ ∀ j < k, some (s.mem (c.bitstream_vaddress.toNat + j)) = frame[j]?
  | .decode buf fetched => call = none ∧ c.enable_preview = true ∧
      (∀ j < frame.length, some (s.mem (c.source buf + j)) = frame[j]?) ∧ Agrees fetched frame
  | .keypad _ engine => call = none ∧ c.Shown engine frame
  | .write _ engine totalcnt file clean => call = some ⟨true, clean⟩ ∧ c.Shown engine frame ∧
      (clean = true → file = frame.take totalcnt.toNat ∧ totalcnt.toNat ≤ frame.length)
  | .requeue _ seen => ∃ answer, call = some answer ∧ c.Faithful answer seen frame
  | _ => True

/-- The buffer has room for what is in it. -/
def Fits (buf : V4l2Buffer) : Prop :=
  buf.index < c.buffers.length ∧ buf.bytesused ≤ (c.span buf.index).len

/-- The invariant: `done` are the calls that are over, with their frames, and `call` is what the
one under way was told. -/
structure Inv (s : Cam) (done : List (Call × List Byte)) (call : Option Call) : Prop where
  owned : s.pc ≠ .stopped → (s.incoming ++ s.outgoing.map V4l2Buffer.index ++
    s.pc.kept c.buffers.length).Perm (List.range c.buffers.length)
  fits : ∀ buf ∈ s.outgoing ++ s.pc.held.toList, c.Fits buf
  reads : List.Forall₂ (fun seen d => c.Faithful d.1 seen d.2) s.reads done
  captured : s.pc ≠ .stopped → s.captured =
    done.map Prod.snd ++ (s.pc.held.toList ++ s.outgoing).map (c.frame s.mem)
  done : done.map Prod.snd <+: s.captured
  pending : ∀ buf, s.pc.held = some buf → c.Pending s (c.frame s.mem buf) call s.pc
  idle : s.pc = .stopped → s.incoming = []
  waits : s.pc.held = none → call = none

variable {c} {s s' : Cam} {done : List (Call × List Byte)} {call : Option Call} {buf : V4l2Buffer}
  {a : Nat} {v : Byte} {pc : Pc}

theorem span_apart {i j : Nat} (hij : i ≠ j) : (c.span i).Disjoint (c.span j) := by
  have hsymm : ∀ b b' : Buffer, b.span.Disjoint b'.span → b'.span.Disjoint b.span :=
    fun b b' h k hk hk' hk'' => h k hk''.1 hk''.2 ⟨hk, hk'⟩
  have hempty : ∀ i, c.buffers.length ≤ i → c.span i = ⟨0, 0⟩ := by
    intro i hi
    rw [span, List.getElem?_eq_none hi]
    rfl
  rcases Nat.lt_or_ge i c.buffers.length with hi | hi
  · rcases Nat.lt_or_ge j c.buffers.length with hj | hj
    · rw [span, span, List.getElem?_eq_getElem hi, List.getElem?_eq_getElem hj]
      rcases Nat.lt_or_gt_of_ne hij with hlt | hgt
      · exact List.pairwise_iff_getElem.1 c.apart i j hi hj hlt
      · exact hsymm _ _ (List.pairwise_iff_getElem.1 c.apart j i hj hi hgt)
    · rw [hempty j hj]
      exact fun k _ _ hk => Nat.not_lt_zero k hk.2
  · rw [hempty i hi]
    exact fun k _ hk => absurd hk (Nat.not_lt_zero k)

@[simp] theorem length_frame (mem : Nat → Byte) : (c.frame mem buf).length = buf.bytesused := by
  simp [frame]

theorem frame_getElem? {mem : Nat → Byte} {j : Nat} (hj : j < buf.bytesused) :
    (c.frame mem buf)[j]? = some (mem ((c.span buf.index).off + j)) := by
  simp [frame, hj]

theorem frame_update {mem : Nat → Byte} (hfits : c.Fits buf)
    (ha : ¬ ((c.span buf.index).off ≤ a ∧ a < (c.span buf.index).off + (c.span buf.index).len)) :
    c.frame (Function.update mem a v) buf = c.frame mem buf := by
  have hle := hfits.2
  refine List.map_congr_left fun k hk => Function.update_of_ne ?_ _ _
  rw [List.mem_range] at hk
  omega

theorem kept_of_held {n : Nat} (h : pc.held = some buf) : pc.kept n = [buf.index] := by
  cases pc <;> cases h <;> rfl

theorem ne_stopped_of_held (h : pc.held = some buf) : pc ≠ .stopped := by
  rintro rfl
  cases h

theorem Inv.pending_at (h : c.Inv s done call) (hpc : s.pc = pc) (hheld : pc.held = some buf) :
    c.Pending s (c.frame s.mem buf) call pc := by
  subst hpc
  exact h.pending buf hheld

theorem Inv.go_on (h : c.Inv s done call) (hheld : s.pc.held = some buf) (hheld' : pc.held = some buf)
    {call' : Option Call} (hpending : c.Pending { s with pc := pc } (c.frame s.mem buf) call' pc) :
    c.Inv { s with pc := pc } done call' := by
  have hne := ne_stopped_of_held hheld
  constructor
  case owned =>
    intro _
    have := h.owned hne
    rw [kept_of_held hheld] at this
    rwa [kept_of_held hheld']
  case fits =>
    have := h.fits
    rw [hheld] at this
    rwa [hheld']
  case reads => exact h.reads
  case captured =>
    intro _
    have := h.captured hne
    rw [hheld] at this
    rwa [hheld']
  case done => exact h.done
  case pending =>
    intro buf' hbuf'
    rw [hheld'] at hbuf'
    cases hbuf'
    exact hpending
  case idle => exact fun hpc => absurd hpc (ne_stopped_of_held hheld')
  case waits =>
    intro hnone
    rw [hheld'] at hnone
    cases hnone

theorem Inv.stop (h : c.Inv s done call) : c.Inv (stop s) done none where
  owned hne := absurd rfl hne
  fits _ hbuf := by cases hbuf
  reads := h.reads
  captured hne := absurd rfl hne
  done := h.done
  pending _ hbuf := by cases hbuf
  idle _ := rfl
  waits _ := rfl

/-- A store outside of the frames, where what the demo has made of its frame stays. -/
theorem Inv.update (h : c.Inv s done call)
    (ha : ∀ buf ∈ s.outgoing ++ s.pc.held.toList,
      ¬ ((c.span buf.index).off ≤ a ∧ a < (c.span buf.index).off + (c.span buf.index).len))
    (hpending : ∀ buf, s.pc.held = some buf → c.Pending s (c.frame s.mem buf) call s.pc →
      c.Pending { s with mem := Function.update s.mem a v } (c.frame s.mem buf) call s.pc) :
    c.Inv { s with mem := Function.update s.mem a v } done call := by
  have hsame : ∀ buf ∈ s.pc.held.toList ++ s.outgoing,
      c.frame (Function.update s.mem a v) buf = c.frame s.mem buf := by
    intro buf hbuf
    have hbuf : buf ∈ s.outgoing ++ s.pc.held.toList := List.mem_append.2 (List.mem_append.1 hbuf).symm
    exact frame_update (h.fits buf hbuf) (ha buf hbuf)
  constructor
  case owned => exact h.owned
  case fits => exact h.fits
  case reads => exact h.reads
  case captured =>
    intro hne
    rw [h.captured hne, List.map_congr_left hsame]
  case done => exact h.done
  case pending =>
    intro buf hbuf
    have hmem : buf ∈ s.pc.held.toList ++ s.outgoing := List.mem_append_left _ (by simp [hbuf])
    have := hpending buf hbuf (h.pending buf hbuf)
    rwa [← hsame buf hmem] at this
  case idle => exact h.idle
  case waits => exact h.waits

theorem Inv.not_queued (h : c.Inv s done call) (hne : s.pc ≠ .stopped) {index : Nat}
    (hi : index ∈ s.incoming) (hbuf : buf ∈ s.outgoing ++ s.pc.held.toList) : buf.index ≠ index := by
  have hnodup := (h.owned hne).nodup_iff.2 List.nodup_range
  rw [List.append_assoc, List.nodup_append] at hnodup
  refine fun heq => hnodup.2.2 index hi buf.index ?_ heq.symm
  rcases List.mem_append.1 hbuf with hout | hheld
  · exact List.mem_append_left _ (List.mem_map_of_mem hout)
  · rw [Option.mem_toList] at hheld
    rw [kept_of_held hheld]
    exact List.mem_append_right _ (List.mem_singleton.2 rfl)

theorem Inv.queued_lt (h : c.Inv s done call) (hne : s.pc ≠ .stopped) {index : Nat}
    (hi : index ∈ s.incoming) : index < c.buffers.length := by
  refine List.mem_range.1 ((h.owned hne).subset ?_)
  exact List.mem_append_left _ (List.mem_append_left _ hi)

theorem bitstream_ne (hcopy : c.user_memorypool_enable = false) {i j k off : Nat}
    (hi : i < c.buffers.length) (hj : j < c.buffers.length) (hk : k < (c.span i).len)
    (hoff : off < (c.span j).len) : c.bitstream_vaddress.toNat + k ≠ (c.span j).off + off := by
  rw [span, List.getElem?_eq_getElem hi, Option.getD_some] at hk
  rw [span, List.getElem?_eq_getElem hj, Option.getD_some] at hoff ⊢
  refine fun heq => c.bitstream_apart hcopy _ (List.getElem_mem hi) _ (List.getElem_mem hj)
    (c.bitstream_vaddress.toNat + k) (Nat.le_add_right _ _) (Nat.add_lt_add_left hk _) ⟨?_, ?_⟩
  · rw [heq]
    exact Nat.le_add_right _ _
  · rw [heq]
    exact Nat.add_lt_add_left hoff _

/-- Neither the frame taken out nor its copy is where the driver stores. -/
theorem Pending.store {index off : Nat} {frame : List Byte} (h : c.Pending s frame call pc)
    (hframe : frame.length = buf.bytesused) (hfits : c.Fits buf) (hne : buf.index ≠ index)
    (hheld : pc.held = some buf) (hlt : index < c.buffers.length)
    (hoff : off < (c.span index).len) :
    c.Pending { s with mem := Function.update s.mem ((c.span index).off + off) v } frame call pc := by
  have hcopy : ∀ j < frame.length, c.user_memorypool_enable = false →
      Function.update s.mem ((c.span index).off + off) v (c.bitstream_vaddress.toNat + j) =
        s.mem (c.bitstream_vaddress.toNat + j) := by
    intro j hj hmode
    refine Function.update_of_ne (bitstream_ne hmode hfits.1 hlt ?_ hoff) _ _
    exact Nat.lt_of_lt_of_le (hframe ▸ hj) hfits.2
  cases pc with
  | copy buf' k =>
    cases hheld
    obtain ⟨hcall, hpreview, hmode, hk, hcopied⟩ := h
    refine ⟨hcall, hpreview, hmode, hk, fun j hj => ?_⟩
    exact (congrArg some (hcopy j (Nat.lt_of_lt_of_le hj hk) hmode)).trans (hcopied j hj)
  | decode buf' fetched =>
    cases hheld
    obtain ⟨hcall, hpreview, hsource, hfetched⟩ := h
    refine ⟨hcall, hpreview, fun j hj => ?_, hfetched⟩
    rw [← hsource j hj]
    congr 1
    cases hmode : c.user_memorypool_enable with
    | true =>
      rw [source, hmode, if_pos rfl]
      refine Function.update_of_ne (fun heq => ?_) _ _
      have hlen := Nat.lt_of_lt_of_le (hframe ▸ hj) hfits.2
      exact span_apart hne _ (Nat.le_add_right _ j) (Nat.add_lt_add_left hlen _)
        ⟨heq ▸ Nat.le_add_right _ _, heq ▸ Nat.add_lt_add_left hoff _⟩
    | false =>
      rw [source, hmode, if_neg (by simp)]
      exact hcopy j hj hmode
  | _ => exact h

/-- **The driver** changes no frame that it has given away. -/
theorem Inv.driver {e : Event} (h : c.Inv s done call) (hs : c.driverStep s e = some s') :
    c.Inv s' done call := by
  have hgoing : ∀ i ∈ s.incoming, s.pc ≠ .stopped := by
    intro i hi hpc
    rw [h.idle hpc] at hi
    cases hi
  cases e with
  | store index off v =>
    simp only [driverStep, Option.ite_none_right_eq_some, Option.some.injEq] at hs
    obtain ⟨⟨-, hi, hoff⟩, rfl⟩ := hs
    have hne := hgoing index hi
    have hlt := h.queued_lt hne hi
    refine h.update (fun buf hbuf hin => ?_) fun buf hheld hpending => ?_
    · exact span_apart (h.not_queued hne hi hbuf) _ hin.1 hin.2
        ⟨Nat.le_add_right _ _, Nat.add_lt_add_left hoff _⟩
    · have hmem : buf ∈ s.outgoing ++ s.pc.held.toList := List.mem_append_right _ (by simp [hheld])
      exact hpending.store (length_frame _) (h.fits buf hmem) (h.not_queued hne hi hmem) hheld hlt hoff
  | fill index bytesused =>
    simp only [driverStep, Option.ite_none_right_eq_some, Option.some.injEq] at hs
    obtain ⟨⟨-, hi, hlen⟩, rfl⟩ := hs
    have hne := hgoing index hi
    constructor
    case owned =>
      intro _
      refine List.Perm.trans ?_ (h.owned hne)
      rw [List.map_append, List.map_singleton]
      refine List.Perm.append_right _ ?_
      rw [← List.append_assoc]
      refine List.perm_append_comm.trans ?_
      rw [List.singleton_append, ← List.cons_append]
      exact List.Perm.append_right _ (List.perm_cons_erase hi).symm
    case fits =>
      intro buf hbuf
      rw [List.append_assoc, List.mem_append] at hbuf
      rcases hbuf with hout | hbuf
      · exact h.fits buf (List.mem_append_left _ hout)
      · rcases List.mem_append.1 hbuf with hnew | hheld
        · rw [List.mem_singleton.1 hnew]
          exact ⟨h.queued_lt hne hi, hlen⟩
        · exact h.fits buf (List.mem_append_right _ hheld)
    case reads => exact h.reads
    case captured =>
      intro _
      simp [h.captured hne]
    case done => exact h.done.trans (List.prefix_append _ _)
    case pending => exact h.pending
    case idle => exact fun hpc => absurd hpc hne
    case waits => exact h.waits
  | _ => cases hs

theorem Inv.queue {i : Nat} (h : c.Inv s done call) (hpc : s.pc = .start i)
    (hi : i < c.buffers.length) :
    c.Inv { s with incoming := s.incoming ++ [i], pc := .start (i + 1) } done call := by
  have howned := h.owned (by simp [hpc])
  have hcap := h.captured (by simp [hpc])
  rw [hpc] at howned hcap
  constructor
  case owned =>
    intro _
    refine List.Perm.trans ?_ howned
    have hrange : List.range' i (c.buffers.length - i) =
        [i] ++ List.range' (i + 1) (c.buffers.length - (i + 1)) := by
      rw [show c.buffers.length - i = c.buffers.length - (i + 1) + 1 by omega, List.range'_succ]
      rfl
    refine List.perm_iff_count.2 fun a => ?_
    simp only [Pc.kept, hrange, List.count_append]
    omega
  case fits =>
    have := h.fits
    rw [hpc] at this
    exact this
  case reads => exact h.reads
  case captured => exact fun _ => hcap
  case done => exact h.done
  case pending => exact fun buf hbuf => by cases hbuf
  case idle => exact fun hpc => by cases hpc
  case waits =>
    have := h.waits
    rw [hpc] at this
    exact this

theorem Inv.streamon {i : Nat} (h : c.Inv s done call) (hpc : s.pc = .start i)
    (hi : c.buffers.length ≤ i) : c.Inv { s with streaming := true, pc := .dequeue } done call := by
  have howned := h.owned (by simp [hpc])
  have hcap := h.captured (by simp [hpc])
  rw [hpc] at howned hcap
  constructor
  case owned =>
    intro _
    rwa [Pc.kept, Nat.sub_eq_zero_of_le hi] at howned
  case fits =>
    have := h.fits
    rw [hpc] at this
    exact this
  case reads => exact h.reads
  case captured => exact fun _ => hcap
  case done => exact h.done
  case pending => exact fun buf hbuf => by cases hbuf
  case idle => exact fun hpc => by cases hpc
  case waits =>
    have := h.waits
    rw [hpc] at this
    exact this

theorem held_dequeued : (c.dequeued buf).held = some buf := by
  unfold dequeued
  split
  · split <;> rfl
  · rfl

theorem Inv.dequeue {rest : List V4l2Buffer} (h : c.Inv s done call) (hpc : s.pc = .dequeue)
    (hout : s.outgoing = buf :: rest) :
    c.Inv { s with outgoing := rest, pc := c.dequeued buf } done call := by
  have howned := h.owned (by simp [hpc])
  have hcap := h.captured (by simp [hpc])
  have hfits := h.fits
  rw [hpc, hout] at howned hcap hfits
  have hframe : ∀ j < (c.frame s.mem buf).length,
      some (s.mem ((c.span buf.index).off + j)) = (c.frame s.mem buf)[j]? := by
    intro j hj
    rw [length_frame] at hj
    exact (frame_getElem? hj).symm
  constructor
  case owned =>
    intro _
    refine List.Perm.trans ?_ howned
    refine List.perm_iff_count.2 fun a => ?_
    have hnone : Pc.dequeue.kept c.buffers.length = [] := rfl
    simp only [kept_of_held held_dequeued, hnone, List.map_cons, List.count_append, List.count_cons,
      List.count_nil]
    omega
  case fits =>
    intro buf' hbuf'
    refine hfits buf' ?_
    rw [held_dequeued] at hbuf'
    simpa [Pc.held, or_comm] using hbuf'
  case reads => exact h.reads
  case captured =>
    intro _
    rw [held_dequeued]
    exact hcap
  case done => exact h.done
  case pending =>
    intro buf' hbuf'
    rw [held_dequeued] at hbuf'
    cases hbuf'
    have hnone : Agrees [] (c.frame s.mem buf) := by simp [Agrees]
    have hcall : call = none := h.waits (by rw [hpc]; rfl)
    simp only [dequeued]
    split
    case isTrue hpreview =>
      split
      case isTrue hmode =>
        refine ⟨hcall, hpreview, ?_, hnone⟩
        simpa [source, hmode] using hframe
      case isFalse hmode =>
        exact ⟨hcall, hpreview, by simpa using hmode, Nat.zero_le _,
          fun j hj => absurd hj (Nat.not_lt_zero j)⟩
    case isFalse hpreview =>
      exact ⟨hcall, (Bool.not_eq_true _ ▸ hpreview).symm, nofun, nofun⟩
  case idle =>
    have hne : c.dequeued buf ≠ .stopped := ne_stopped_of_held held_dequeued
    exact fun hpc => absurd hpc hne
  case waits =>
    intro hnone
    rw [held_dequeued] at hnone
    cases hnone

theorem Agrees.concat {bytes frame : List Byte} (h : Agrees bytes frame)
    (hv : ∀ b, frame[bytes.length]? = some b → v = b) : Agrees (bytes ++ [v]) frame := by
  unfold Agrees at h ⊢
  rw [List.length_append, List.length_singleton, List.take_add_one]
  rcases Nat.lt_or_ge bytes.length frame.length with hlt | hge
  · rw [List.take_of_length_le (Nat.le_of_lt hlt)] at h
    rw [List.take_of_length_le (by simpa using Nat.succ_le_of_lt hlt), ← h]
    rw [List.getElem?_eq_getElem hlt] at hv ⊢
    rw [hv _ rfl]
    rfl
  · rw [List.take_append_of_le_length hge, h, List.getElem?_eq_none hge]
    simp

/-- A pass of the `memcpy`. It overwrites nothing the driver or the demo still needs. -/
theorem Inv.copied {k : Nat} (h : c.Inv s done call) (hpc : s.pc = .copy buf k)
    (hk : k < buf.bytesused) :
    c.Inv { s with
      mem := Function.update s.mem (c.bitstream_vaddress.toNat + k) (s.mem ((c.span buf.index).off + k))
      pc := .copy buf (k + 1) } done call := by
  have hheld : s.pc.held = some buf := by rw [hpc]; rfl
  have hfits := h.fits buf (List.mem_append_right _ (by simp [hheld]))
  obtain ⟨hcall, hpreview, hmode, hle, hcopied⟩ := h.pending_at hpc rfl
  have hlen := Nat.lt_of_lt_of_le hk hfits.2
  have hout : ∀ buf ∈ s.outgoing ++ s.pc.held.toList, ¬ ((c.span buf.index).off ≤
      c.bitstream_vaddress.toNat + k ∧
      c.bitstream_vaddress.toNat + k < (c.span buf.index).off + (c.span buf.index).len) := by
    intro buf' hbuf' hin
    obtain ⟨off, hoff⟩ := Nat.exists_eq_add_of_le hin.1
    rw [hoff] at hin
    exact bitstream_ne hmode hfits.1 (h.fits buf' hbuf').1 hlen (Nat.lt_of_add_lt_add_left hin.2) hoff
  have hsame : c.frame (Function.update s.mem (c.bitstream_vaddress.toNat + k)
      (s.mem ((c.span buf.index).off + k))) buf = c.frame s.mem buf :=
    frame_update hfits (hout buf (List.mem_append_right _ (by simp [hheld])))
  refine (h.update hout fun buf' hbuf' _ => ?_).go_on hheld rfl
    ⟨hcall, hpreview, hmode, ?_, fun j hj => ?_⟩
  · rw [hheld] at hbuf'
    cases hbuf'
    rw [hpc]
    refine ⟨hcall, hpreview, hmode, hle, fun j hj => ?_⟩
    rw [← hcopied j hj]
    exact congrArg some (Function.update_of_ne (by omega) _ _)
  · rw [length_frame]
    exact hk
  · simp only [hsame]
    rcases Nat.lt_succ_iff_lt_or_eq.1 hj with hj | rfl
    · rw [Function.update_of_ne (by omega)]
      exact hcopied j hj
    · rw [Function.update_self, frame_getElem? hk]

theorem Inv.copy_done {k : Nat} (h : c.Inv s done call) (hpc : s.pc = .copy buf k)
    (hk : ¬ k < buf.bytesused) : c.Inv { s with pc := .decode buf [] } done call := by
  have hheld : s.pc.held = some buf := by rw [hpc]; rfl
  obtain ⟨hcall, hpreview, hmode, -, hcopied⟩ := h.pending_at hpc rfl
  refine h.go_on hheld rfl ⟨hcall, hpreview, fun j hj => ?_, by simp [Agrees]⟩
  rw [length_frame] at hj
  rw [source, hmode]
  exact hcopied j (Nat.lt_of_lt_of_le hj (Nat.le_of_not_lt hk))

theorem Inv.fetch {fetched : List Byte} (h : c.Inv s done call) (hpc : s.pc = .decode buf fetched) :
    c.Inv { s with pc := .decode buf (fetched ++ [s.mem (c.source buf + fetched.length)]) } done
      call := by
  have hheld : s.pc.held = some buf := by rw [hpc]; rfl
  obtain ⟨hcall, hpreview, hsource, hfetched⟩ := h.pending_at hpc rfl
  refine h.go_on hheld rfl ⟨hcall, hpreview, hsource, Agrees.concat hfetched fun b hb => ?_⟩
  have hlt := (List.getElem?_eq_some_iff.1 hb).1
  exact Option.some.inj ((hsource _ hlt).trans hb)

theorem bitstream_take {frame : List Byte}
    (h : ∀ j < frame.length, some (s.mem (c.source buf + j)) = frame[j]?) :
    (c.bitstream s.mem buf).take frame.length = frame.take src_bufsize := by
  apply List.ext_getElem?
  intro j
  rw [List.getElem?_take, List.getElem?_take, bitstream, List.getElem?_map]
  rcases Nat.lt_or_ge j frame.length with hj | hj
  · rw [if_pos hj, ← h j hj]
    rcases Nat.lt_or_ge j src_bufsize with hsize | hsize
    · rw [if_pos hsize, List.getElem?_range hsize]
      rfl
    · rw [if_neg (Nat.not_lt.2 hsize), List.getElem?_eq_none (by simpa using hsize)]
      rfl
  · rw [if_neg (Nat.not_lt.2 hj), List.getElem?_eq_none hj, ite_self]

theorem Inv.decoded {fetched : List Byte} (h : c.Inv s done call)
    (hpc : s.pc = .decode buf fetched) :
    c.Inv { s with pc := .keypad buf (some ⟨fetched, c.bitstream s.mem buf⟩) } done call := by
  have hheld : s.pc.held = some buf := by rw [hpc]; rfl
  obtain ⟨hcall, hpreview, hsource, hfetched⟩ := h.pending_at hpc rfl
  have htake := bitstream_take hsource
  generalize c.bitstream s.mem buf = bytes at htake
  refine h.go_on hheld rfl ⟨hcall, hpreview.symm, ?_, ?_⟩
  · rintro d hd
    cases hd
    exact hfetched
  · rintro d hd
    cases hd
    exact htake

theorem Inv.key {engine : Option Decoded} (h : c.Inv s done call) (hpc : s.pc = .keypad buf engine)
    (save : Bool) : call = none ∧ c.Inv
      { s with pc := if save then .write buf engine 0 [] true else .requeue buf ⟨engine, none⟩ }
      done (some ⟨save, true⟩) := by
  have hheld : s.pc.held = some buf := by rw [hpc]; rfl
  obtain ⟨hcall, hshown⟩ := h.pending_at hpc rfl
  refine ⟨hcall, ?_⟩
  cases save with
  | false => exact h.go_on hheld rfl ⟨_, rfl, hshown, rfl⟩
  | true => exact h.go_on hheld rfl ⟨rfl, hshown, fun _ => ⟨rfl, Nat.zero_le _⟩⟩

theorem Inv.wrote {engine : Option Decoded} {totalcnt : BitVec 32} {file : List Byte}
    {clean : Bool} (h : c.Inv s done call)
    (hpc : s.pc = .write buf engine totalcnt file clean)
    (hlt : totalcnt.toNat < buf.bytesused) :
    let byte := s.mem ((c.span buf.index).off + totalcnt.toNat)
    call = some ⟨true, clean⟩ ∧
      c.Inv { s with pc := .write buf engine (totalcnt + 1) (file ++ [byte]) clean } done call ∧
      c.Inv { s with pc := .write buf engine (totalcnt - 1) file false } done
        (some ⟨true, false⟩) := by
  have hheld : s.pc.held = some buf := by rw [hpc]; rfl
  have hfits := h.fits buf (List.mem_append_right _ (by simp [hheld]))
  obtain ⟨hcall, hshown, hwritten⟩ := h.pending_at hpc rfl
  refine ⟨hcall, h.go_on hheld rfl ⟨hcall, hshown, fun hclean => ?_⟩,
    h.go_on hheld rfl ⟨rfl, hshown, fun hclean => by cases hclean⟩⟩
  obtain ⟨hfile, hle⟩ := hwritten hclean
  have hnext : (totalcnt + 1).toNat = totalcnt.toNat + 1 := by
    have : (c.span buf.index).len < 2 ^ 32 := BitVec.isLt _
    have := hfits.2
    rw [BitVec.toNat_add]
    exact Nat.mod_eq_of_lt (by simp; omega)
  rw [hnext, List.take_add_one, frame_getElem? hlt, ← hfile]
  exact ⟨rfl, by rw [length_frame]; exact hlt⟩

theorem Inv.closed {engine : Option Decoded} {totalcnt : BitVec 32} {file : List Byte}
    {clean : Bool} (h : c.Inv s done call)
    (hpc : s.pc = .write buf engine totalcnt file clean)
    (hge : ¬ totalcnt.toNat < buf.bytesused) :
    c.Inv { s with pc := .requeue buf ⟨engine, if clean then some file else none⟩ } done call := by
  have hheld : s.pc.held = some buf := by rw [hpc]; rfl
  obtain ⟨hcall, hshown, hwritten⟩ := h.pending_at hpc rfl
  refine h.go_on hheld rfl ⟨_, hcall, hshown, ?_⟩
  cases clean with
  | false => rfl
  | true =>
    rw [(hwritten rfl).1, List.take_of_length_le]
    · rfl
    · rw [length_frame]
      exact Nat.le_of_not_lt hge

theorem Inv.requeue {seen : Seen} (h : c.Inv s done call) (hpc : s.pc = .requeue buf seen) :
    ∃ answer, call = some answer ∧
      c.Inv { s with incoming := s.incoming ++ [buf.index], reads := s.reads ++ [seen], pc := .dequeue }
        (done ++ [(answer, c.frame s.mem buf)]) none := by
  have hheld : s.pc.held = some buf := by rw [hpc]; rfl
  have hne := ne_stopped_of_held hheld
  have howned := h.owned hne
  have hcap := h.captured hne
  obtain ⟨answer, hcall, hfaithful⟩ := h.pending_at hpc rfl
  rw [kept_of_held hheld] at howned
  rw [hheld] at hcap
  refine ⟨answer, hcall, ?_⟩
  constructor
  case owned =>
    intro _
    refine List.Perm.trans (List.perm_iff_count.2 fun a => ?_) howned
    have hnone : Pc.dequeue.kept c.buffers.length = [] := rfl
    simp only [hnone, List.count_append, List.count_nil]
    omega
  case fits => exact fun buf' hbuf' => h.fits buf' (List.mem_append_left _ (by simpa [Pc.held] using hbuf'))
  case reads => exact List.rel_append h.reads (.cons hfaithful .nil)
  case captured =>
    intro _
    rw [List.map_append, List.append_assoc]
    exact hcap
  case done =>
    refine ⟨s.outgoing.map (c.frame s.mem), ?_⟩
    rw [List.map_append, List.append_assoc]
    exact hcap.symm
  case pending => exact fun buf' hbuf' => by cases hbuf'
  case idle => exact fun hpc => by cases hpc
  case waits => exact fun _ => rfl

/-- What the calls were told: those that are over, and the one under way. -/
def told (done : List (Call × List Byte)) (call : Option Call) : List Call :=
  done.map Prod.fst ++ call.toList

theorem told_key (save : Bool) :
    told done (some ⟨save, true⟩) = noteCall (told done none) (.key save) := by
  simp [told, noteCall]

theorem told_wrote (clean : Bool) :
    told done (some ⟨true, false⟩) = noteCall (told done (some ⟨true, clean⟩)) (.wrote false) := by
  rw [noteCall, told, told, Option.toList_some, Option.toList_some, List.modifyLast_concat]

theorem told_concat (answer : Call) (frame : List Byte) :
    told (done ++ [(answer, frame)]) none = told done (some answer) := by
  simp [told]

/-- **The demo** makes of every frame what it should. -/
theorem Inv.demo {e : Event} (h : c.Inv s done call) (hs : c.demoStep s s.pc e = some s') :
    ∃ done' call', c.Inv s' done' call' ∧ told done' call' = noteCall (told done call) e := by
  generalize hpc : s.pc = pc at hs
  have hwaits : pc.held = none → call = none := hpc ▸ h.waits
  cases pc with
  | start i =>
    cases hwaits rfl
    cases e with
    | qbuf ok =>
      simp only [demoStep, Option.ite_none_right_eq_some] at hs
      obtain ⟨hi, hs⟩ := hs
      cases ok
      · cases hs
        exact ⟨done, _, h.stop, rfl⟩
      · cases hs
        exact ⟨done, _, h.queue hpc hi, rfl⟩
    | streamon ok =>
      simp only [demoStep, Option.ite_none_left_eq_some] at hs
      obtain ⟨hi, hs⟩ := hs
      cases ok
      · cases hs
        exact ⟨done, _, h.stop, rfl⟩
      · cases hs
        exact ⟨done, _, h.streamon hpc (Nat.le_of_not_lt hi), rfl⟩
    | _ => cases hs
  | dequeue =>
    cases hwaits rfl
    cases e with
    | dqbuf ok =>
      cases ok with
      | false =>
        cases hs
        exact ⟨done, _, h.stop, rfl⟩
      | true =>
        simp only [demoStep] at hs
        split at hs
        · cases hs
        · rename_i hout
          cases hs
          exact ⟨done, _, h.dequeue hpc hout, rfl⟩
    | _ => cases hs
  | copy buf k =>
    cases e with
    | copied =>
      simp only [demoStep] at hs
      split at hs
      case isTrue hk =>
        cases hs
        exact ⟨done, _, h.copied hpc hk, rfl⟩
      case isFalse hk =>
        cases hs
        exact ⟨done, _, h.copy_done hpc hk, rfl⟩
    | _ => cases hs
  | decode buf fetched =>
    cases e with
    | fetch =>
      simp only [demoStep, Option.ite_none_right_eq_some] at hs
      obtain ⟨-, hs⟩ := hs
      cases hs
      exact ⟨done, _, h.fetch hpc, rfl⟩
    | decoded =>
      cases hs
      exact ⟨done, _, h.decoded hpc, rfl⟩
    | _ => cases hs
  | keypad buf engine =>
    cases e with
    | key save =>
      obtain ⟨rfl, hinv⟩ := h.key hpc save
      cases hs
      exact ⟨done, _, hinv, told_key save⟩
    | _ => cases hs
  | write buf engine totalcnt file clean =>
    cases e with
    | wrote ok =>
      simp only [demoStep, Option.ite_none_right_eq_some] at hs
      obtain ⟨hlt, hs⟩ := hs
      obtain ⟨hcall, hgood, hbad⟩ := h.wrote hpc hlt
      cases ok
      · cases hs
        exact ⟨done, _, hbad, hcall ▸ told_wrote clean⟩
      · cases hs
        exact ⟨done, _, hgood, rfl⟩
    | closed =>
      simp only [demoStep, Option.ite_none_left_eq_some] at hs
      obtain ⟨hge, hs⟩ := hs
      cases hs
      exact ⟨done, _, h.closed hpc hge, rfl⟩
    | _ => cases hs
  | requeue buf seen =>
    cases e with
    | qbuf ok =>
      obtain ⟨answer, rfl, hread⟩ := h.requeue hpc
      cases ok
      · cases hs
        exact ⟨_, _, hread.stop, told_concat answer _⟩
      · cases hs
        exact ⟨_, _, hread, told_concat answer _⟩
    | _ => cases hs
  | stopped => cases hs

theorem inv_begin (mem : Nat → Byte) : c.Inv (begin mem) [] none where
  owned _ := by simp [begin, Pc.kept, List.range_eq_range']
  fits _ hbuf := by cases hbuf
  reads := .nil
  captured _ := rfl
  done := List.prefix_refl _
  pending _ hbuf := by cases hbuf
  idle hpc := by cases hpc
  waits _ := rfl

/-- **Any interleaving** of driver and demo. -/
theorem inv_run {mem : Nat → Byte} {es : List Event} (h : run c.step (begin mem) es = some s) :
    ∃ done call, c.Inv s done call ∧ told done call = calls es := by
  induction es using List.reverseRecOn generalizing s with
  | nil =>
    cases h
    exact ⟨[], none, inv_begin mem, rfl⟩
  | append_singleton es e ih =>
    obtain ⟨t, ht, hs⟩ := run_concat_eq_some.1 h
    obtain ⟨done, call, hinv, htold⟩ := ih ht
    rw [calls_concat, ← htold]
    cases e with
    | store index off v =>
      have hs : c.driverStep t (.store index off v) = some s := hs
      exact ⟨done, call, hinv.driver hs, rfl⟩
    | fill index bytesused =>
      have hs : c.driverStep t (.fill index bytesused) = some s := hs
      exact ⟨done, call, hinv.driver hs, rfl⟩
    | _ => exact hinv.demo hs

end Setup

/-- In pool mode the buffers are apart as far as `main` sees to it. -/
def Setup.ofPool {e : JpegBuffer} {count : BitVec 32} (h : accepted e count = true)
    (hbits : BUFFER_SIZE_WEBCAM_BITSTREAM.toNat ≤ e.jpeg_buffer_size.toNat) : Setup where
  buffers := pool e count
  enable_preview := true
  user_memorypool_enable := true
  bitstream_vaddress := bitstreamVaddress e
  apart := by
    obtain ⟨-, hle⟩ := accepted_iff.1 h
    have hsize := e.jpeg_buffer_size.isLt
    have h200 : BUFFER_SIZE_WEBCAM_BITSTREAM.toNat = 204800 := rfl
    rw [h200] at hbits
    have hdiff : (e.jpeg_buffer_size.toNat + (2 ^ 32 - 204800)) % 2 ^ 32 =
        e.jpeg_buffer_size.toNat - 204800 := by omega
    rw [hdiff, Nat.le_div_iff_mul_le (by decide)] at hle
    exact (poolOk_of_le (Nat.add_le_of_le_sub hbits hle)).disjoint
  bitstream_apart := by simp

/-- One buffer of one megabyte, and a frame of two bytes that is shown and saved. The driver is
already filling the buffer again when the run ends. -/
def oneFrame : List Event :=
  [.qbuf true, .streamon true, .store 0 0 0xFF, .store 0 1 0xD8, .fill 0 2, .dqbuf true, .fetch,
    .fetch, .fetch, .decoded, .key true, .wrote true, .wrote true, .closed, .qbuf true,
    .store 0 0 0x00]

/-- The main loop of the demo goes on. -/
def Pc.Reading : Pc → Prop
  | .start _ | .stopped => False
  | _ => True

/-- **No buffer is lost**: while the demo reads, each is queued, filled or the one taken out, so
that the assertion of `cam_read` holds and the driver has all of them whenever the demo waits. -/
theorem buffers_conserved (c : Setup) (mem : Nat → Byte) {es : List Event} {s : Cam}
    (h : run c.step (Setup.begin mem) es = some s) (hpc : s.pc.Reading) :
    (s.incoming ++ (s.outgoing ++ s.pc.held.toList).map V4l2Buffer.index).Perm
      (List.range c.buffers.length) := by
  obtain ⟨done, call, hinv, -⟩ := Setup.inv_run h
  have hkept : s.pc.kept c.buffers.length = s.pc.held.toList.map V4l2Buffer.index := by
    cases hs : s.pc with
    | start i =>
      rw [hs] at hpc
      exact hpc.elim
    | _ => rfl
  have hne : s.pc ≠ .stopped := by
    intro hs
    rw [hs] at hpc
    exact hpc
  have howned := hinv.owned hne
  rwa [hkept, List.append_assoc, ← List.map_append] at howned

theorem buffers_conserved_oneFrame :
    let c := @Setup.ofPool oneMegabyte 1 (by decide) (by decide)
    ∃ s, run c.step (Setup.begin fun _ => 0) oneFrame = some s ∧
      (s.incoming ++ (s.outgoing ++ s.pc.held.toList).map V4l2Buffer.index).Perm
        (List.range c.buffers.length) :=
  ⟨_, rfl, @buffers_conserved _ (fun _ => 0) oneFrame _ rfl trivial⟩

end N32905.Webcam
