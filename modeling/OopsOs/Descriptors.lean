import OopsOs.Lib.X86Descriptors

/-!
# The descriptor tables

`initialize_idt` fills the fields of 256 packed structures, and `entry` those
of two segment descriptors.  What counts is what the processor reads in them:
`initializeIdt_gates` says which handler each vector has, and
`segmentOf_setSegParams` that base and limit come back in one piece.
-/

namespace OopsOs

open X86

/-! ## Entries of the interrupt descriptor table -/

/-- `idt_desc_t`. -/
structure IdtDesc where
  offset15_00 : BitVec 16
  segSelector : BitVec 16
  reserved4 : BitVec 8
  reserved3 : BitVec 1
  reserved2 : BitVec 1
  reserved1 : BitVec 1
  size : BitVec 1
  reserved0 : BitVec 1
  dpl : BitVec 2
  present : BitVec 1
  offset31_16 : BitVec 16

/-- The structure is packed, the first field in the low bits. -/
def IdtDesc.val (d : IdtDesc) : BitVec 64 :=
  d.offset31_16 ++ d.present ++ d.dpl ++ d.reserved0 ++
    (d.size ++ d.reserved1 ++ d.reserved2 ++ d.reserved3) ++ d.reserved4 ++ d.segSelector ++
    d.offset15_00

theorem gateOf_val (d : IdtDesc) :
    gateOf d.val =
      { offset := d.offset31_16 ++ d.offset15_00
        selector := d.segSelector
        type := d.size ++ d.reserved1 ++ d.reserved2 ++ d.reserved3
        nonsystem := d.reserved0
        dpl := d.dpl
        present := d.present } := by
  unfold gateOf IdtDesc.val
  simp (disch := decide) only [BitVec.extractLsb'_append_eq_of_le,
    BitVec.extractLsb'_append_eq_of_add_le]
  apply Gate.ext
  · exact congrArg₂ (· ++ ·) BitVec.extractLsb'_eq_self BitVec.extractLsb'_eq_self
  · exact BitVec.extractLsb'_eq_self
  · exact BitVec.extractLsb'_eq_self
  · exact BitVec.extractLsb'_eq_self
  · exact BitVec.extractLsb'_eq_self
  · exact BitVec.extractLsb'_eq_self

def kernelCs : BitVec 16 := 0x0010
def kernelDs : BitVec 16 := 0x0018
def userCs : BitVec 16 := 0x0023
def userDs : BitVec 16 := 0x002B
def kernelTss : BitVec 16 := 0x0030
def kernelLdt : BitVec 16 := 0x0038

/-- The functions that the table refers to. -/
inductive Handler
  | divideError
  | debugException
  | nmiInterrupt
  | breakpointInterrupt
  | overflowException
  | boundRangeExceeded
  | invalidOpcode
  | deviceNotAvailable
  | doubleFault
  | coprocessorSegmentOverrun
  | invalidTss
  | segmentNotPresent
  | stackSegmentFault
  | generalProtection
  | pageFault
  | reserved
  | floatingPointError
  | alignmentCheck
  | machineCheck
  | simdFloatingPointException
  | undefinedInterrupt
  | pitInterrupt
  | keyboardInterrupt
  | rtcInterrupt
  | sysCallInterrupt
deriving DecidableEq, Repr

/-- `SET_IDT_ENTRY`. -/
def setIdtEntry (d : IdtDesc) (handler : BitVec 32) : IdtDesc :=
  { d with
    offset31_16 := ((handler &&& 0xFFFF0000) >>> 16).setWidth 16
    offset15_00 := (handler &&& 0xFFFF).setWidth 16 }

/-- The constant fields; the system call's entry is open to programs. -/
def idtFields (i : Fin 256) (d : IdtDesc) : IdtDesc :=
  let d := { d with
    segSelector := kernelCs
    reserved4 := 0x0
    reserved3 := 0x1
    reserved2 := 0x1
    reserved1 := 0x1
    size := 0x1
    reserved0 := 0x0
    dpl := 0x0
    present := 0x1 }
  if i.val = 0x80 then { d with dpl := 0x3 } else d

/-- One turn of the loop over the table. -/
def idtTurn (address : Handler → BitVec 32) (i : Fin 256) (d : IdtDesc) : IdtDesc :=
  let d := idtFields i d
  if i.val > 31 then setIdtEntry d (address .undefinedInterrupt) else d

/-- The entries that are set after the loop. -/
def idtEntries : List (Fin 256 × Handler) :=
  [(0x20, .pitInterrupt), (0x21, .keyboardInterrupt), (0x28, .rtcInterrupt),
    (0x80, .sysCallInterrupt), (0, .divideError), (1, .debugException), (2, .nmiInterrupt),
    (3, .breakpointInterrupt), (4, .overflowException), (5, .boundRangeExceeded),
    (6, .invalidOpcode), (7, .deviceNotAvailable), (8, .doubleFault),
    (9, .coprocessorSegmentOverrun), (10, .invalidTss), (11, .segmentNotPresent),
    (12, .stackSegmentFault), (13, .generalProtection), (14, .pageFault), (15, .reserved),
    (16, .floatingPointError), (17, .alignmentCheck), (18, .machineCheck),
    (19, .simdFloatingPointException)]

/-- `initialize_idt`, with the addresses of the handlers. -/
def initializeIdt (address : Handler → BitVec 32) (idt : Fin 256 → IdtDesc) :
    Fin 256 → IdtDesc :=
  let idt := (List.finRange 256).foldl
    (fun idt i => Function.update idt i (idtTurn address i (idt i))) idt
  idtEntries.foldl
    (fun idt e => Function.update idt e.1 (setIdtEntry (idt e.1) (address e.2))) idt

/-- The handler of a vector; the vectors 20 to 31 have none. -/
def gateHandler (v : Fin 256) : Option Handler :=
  (idtEntries.lookup v).or (if v.val > 31 then some .undefinedInterrupt else none)

/-- The address that an entry has been set to. -/
theorem setIdtEntry_offset (d : IdtDesc) (handler : BitVec 32) :
    (setIdtEntry d handler).offset31_16 ++ (setIdtEntry d handler).offset15_00 = handler := by
  have hhigh : (setIdtEntry d handler).offset31_16 = handler.extractLsb' 16 16 :=
    masked_shifted handler (by decide)
  have hlow : (setIdtEntry d handler).offset15_00 = handler.extractLsb' 0 16 :=
    masked_low handler (by decide)
  rw [hhigh, hlow]
  exact BitVec.extractLsb'_append_extractLsb' (w := 16)

theorem gateOf_setIdtEntry (d : IdtDesc) (handler : BitVec 32) :
    gateOf (setIdtEntry d handler).val = { gateOf d.val with offset := handler } := by
  rw [gateOf_val, gateOf_val, setIdtEntry_offset]
  rfl

/-- The loop makes every entry a trap gate into the kernel's code segment. -/
theorem gateOf_idtFields (i : Fin 256) (d : IdtDesc) :
    gateOf (idtFields i d).val =
      { offset := (gateOf d.val).offset
        selector := kernelCs
        type := 0xF
        nonsystem := 0
        dpl := if i.val = 0x80 then 3 else 0
        present := 1 } := by
  rw [gateOf_val, gateOf_val]
  unfold idtFields
  by_cases hcall : i.val = 0x80
  · simp only [if_pos hcall]
    rfl
  · simp only [if_neg hcall]
    rfl

theorem gateOf_idtTurn (address : Handler → BitVec 32) (i : Fin 256) (d : IdtDesc) :
    gateOf (idtTurn address i d).val = { gateOf (idtFields i d).val with
      offset :=
        if i.val > 31 then address .undefinedInterrupt else (gateOf (idtFields i d).val).offset } := by
  unfold idtTurn
  by_cases huser : i.val > 31
  · simp only [if_pos huser]
    rw [gateOf_setIdtEntry]
  · simp only [if_neg huser]

theorem idtEntries_nodup : (idtEntries.map Prod.fst).Nodup := by decide

/--
What the processor finds at vector `v`: a trap gate into the kernel with the
handler of the vector, which a program can come to from user mode at vector
0x80 only.
-/
theorem initializeIdt_gates (address : Handler → BitVec 32) (idt : Fin 256 → IdtDesc)
    (v : Fin 256) :
    gateOf (initializeIdt address idt v).val =
      { offset := (gateHandler v).elim (gateOf (idt v).val).offset address
        selector := kernelCs
        type := 0xF
        nonsystem := 0
        dpl := if v.val = 0x80 then 3 else 0
        present := 1 } := by
  obtain ⟨loop, hloop⟩ : ∃ loop, (List.finRange 256).foldl
      (fun idt i => Function.update idt i (idtTurn address i (idt i))) idt = loop := ⟨_, rfl⟩
  have hturn : ∀ i, loop i = idtTurn address i (idt i) := by
    intro i
    rw [← hloop]
    exact foldl_update_of_mem id (idtTurn address) (by simpa using List.nodup_finRange 256)
      (List.mem_finRange i) idt
  unfold initializeIdt gateHandler
  rw [hloop]
  cases hlookup : idtEntries.lookup v with
  | none =>
      have hnot : v ∉ idtEntries.map Prod.fst := by
        intro hmem
        obtain ⟨e, he, rfl⟩ := List.mem_map.mp hmem
        simpa using List.lookup_eq_none_iff.mp hlookup e he
      rw [foldl_update_of_not_mem Prod.fst (fun e d => setIdtEntry d (address e.2)) hnot, hturn,
        gateOf_idtTurn, gateOf_idtFields]
      by_cases huser : v.val > 31
      · rw [if_pos huser, if_pos huser]
        rfl
      · rw [if_neg huser, if_neg huser]
        rfl
  | some h =>
      have hmem : (v, h) ∈ idtEntries := by
        obtain ⟨l₁, l₂, hsplit, -⟩ := List.lookup_eq_some_iff.mp hlookup
        rw [hsplit]
        exact List.mem_append_right l₁ List.mem_cons_self
      rw [foldl_update_of_mem Prod.fst (fun e d => setIdtEntry d (address e.2)) idtEntries_nodup
        hmem, hturn, gateOf_setIdtEntry, gateOf_idtTurn, gateOf_idtFields]
      rfl

/--
Once `initialize_idt` has run, whatever the table held and wherever the
handlers are: an interrupt of a device or an exception goes to the handler of
its vector in the kernel, with the interrupt flag as it was, and a program can
raise vector 0x80 and no other one.
-/
theorem initializeIdt_enter (address : Handler → BitVec 32) (idt : Fin 256 → IdtDesc)
    (v : Fin 256) :
    enter (gateOf (initializeIdt address idt v).val) .hardware =
        .handler kernelCs ((gateHandler v).elim (gateOf (idt v).val).offset address) true ∧
      enter (gateOf (initializeIdt address idt v).val) (.software 3) =
        if v.val = 0x80 then .handler kernelCs (address .sysCallInterrupt) true
        else .fault 13 := by
  rw [initializeIdt_gates]
  refine ⟨rfl, ?_⟩
  by_cases hcall : v.val = 0x80
  · obtain rfl : v = 0x80 := Fin.ext hcall
    rfl
  · simp only [if_neg hcall]
    rfl

/-! ## Segment descriptors -/

/-- `seg_desc_t`. -/
structure SegDesc where
  segLim15_00 : BitVec 16
  base15_00 : BitVec 16
  base23_16 : BitVec 8
  type : BitVec 4
  sys : BitVec 1
  dpl : BitVec 2
  present : BitVec 1
  segLim19_16 : BitVec 4
  avail : BitVec 1
  reserved : BitVec 1
  opsize : BitVec 1
  granularity : BitVec 1
  base31_24 : BitVec 8

def SegDesc.val (d : SegDesc) : BitVec 64 :=
  d.base31_24 ++ d.granularity ++ d.opsize ++ d.reserved ++ d.avail ++ d.segLim19_16 ++
    d.present ++ d.dpl ++ d.sys ++ d.type ++ d.base23_16 ++ d.base15_00 ++ d.segLim15_00

theorem segmentOf_val (d : SegDesc) :
    segmentOf d.val =
      { base := d.base31_24 ++ d.base23_16 ++ d.base15_00
        limit := d.segLim19_16 ++ d.segLim15_00
        type := d.type
        nonsystem := d.sys
        dpl := d.dpl
        present := d.present
        available := d.avail
        long := d.reserved
        big := d.opsize
        granular := d.granularity } := by
  unfold segmentOf SegDesc.val
  simp (disch := decide) only [BitVec.extractLsb'_append_eq_of_le,
    BitVec.extractLsb'_append_eq_of_add_le]
  apply Segment.ext
  · exact congrArg₂ (· ++ ·) (congrArg₂ (· ++ ·) BitVec.extractLsb'_eq_self
      BitVec.extractLsb'_eq_self) BitVec.extractLsb'_eq_self
  · exact congrArg₂ (· ++ ·) BitVec.extractLsb'_eq_self BitVec.extractLsb'_eq_self
  · exact BitVec.extractLsb'_eq_self
  · exact BitVec.extractLsb'_eq_self
  · exact BitVec.extractLsb'_eq_self
  · exact BitVec.extractLsb'_eq_self
  · exact BitVec.extractLsb'_eq_self
  · exact BitVec.extractLsb'_eq_self
  · exact BitVec.extractLsb'_eq_self
  · exact BitVec.extractLsb'_eq_self

/-- The body of both `SET_LDT_PARAMS` and `SET_TSS_PARAMS`. -/
def setSegParams (d : SegDesc) (addr lim : BitVec 32) : SegDesc :=
  { d with
    base31_24 := ((addr &&& 0xFF000000) >>> 24).setWidth 8
    base23_16 := ((addr &&& 0x00FF0000) >>> 16).setWidth 8
    base15_00 := (addr &&& 0x0000FFFF).setWidth 16
    segLim19_16 := ((lim &&& 0x000F0000) >>> 16).setWidth 4
    segLim15_00 := (lim &&& 0x0000FFFF).setWidth 16 }

def setLdtParams (d : SegDesc) (addr lim : BitVec 32) : SegDesc := setSegParams d addr lim

def setTssParams (d : SegDesc) (addr lim : BitVec 32) : SegDesc := setSegParams d addr lim

/-- The base comes back whole, and of the limit its low 20 bits. -/
theorem segmentOf_setSegParams (d : SegDesc) (addr lim : BitVec 32) :
    segmentOf (setSegParams d addr lim).val =
      { segmentOf d.val with base := addr, limit := lim.setWidth 20 } := by
  have hbase : (setSegParams d addr lim).base31_24 ++ (setSegParams d addr lim).base23_16 ++
      (setSegParams d addr lim).base15_00 = addr := by
    have h31 : (setSegParams d addr lim).base31_24 = addr.extractLsb' 24 8 :=
      masked_shifted addr (by decide)
    have h23 : (setSegParams d addr lim).base23_16 = addr.extractLsb' 16 8 :=
      masked_shifted addr (by decide)
    have h15 : (setSegParams d addr lim).base15_00 = addr.extractLsb' 0 16 :=
      masked_low addr (by decide)
    rw [h31, h23, h15, BitVec.extractLsb'_append_extractLsb'_eq_extractLsb' (by decide)]
    exact BitVec.extractLsb'_append_extractLsb' (w := 16)
  have hlimit : (setSegParams d addr lim).segLim19_16 ++ (setSegParams d addr lim).segLim15_00 =
      lim.setWidth 20 := by
    have h19 : (setSegParams d addr lim).segLim19_16 = lim.extractLsb' 16 4 :=
      masked_shifted lim (by decide)
    have h15 : (setSegParams d addr lim).segLim15_00 = lim.extractLsb' 0 16 :=
      masked_low lim (by decide)
    rw [h19, h15, BitVec.extractLsb'_append_extractLsb'_eq_extractLsb' (by decide),
      BitVec.setWidth_eq_extractLsb' (by decide)]
  rw [segmentOf_val, segmentOf_val, hbase, hlimit]
  rfl

/-- The descriptor of the LDT that `entry` builds, in a structure that holds anything before. -/
def theLdtDesc (garbage : SegDesc) (ldt ldtSize : BitVec 32) : SegDesc :=
  setLdtParams
    { garbage with
      granularity := 0x0
      opsize := 0x1
      reserved := 0x0
      avail := 0x0
      present := 0x1
      dpl := 0x0
      sys := 0x0
      type := 0x2 } ldt ldtSize

/-- `TSS_SIZE`, the size that `entry` stores before the one it keeps. -/
def tssSizeConstant : BitVec 32 := 104

def theTssDesc (garbage : SegDesc) (tss tssSize : BitVec 32) : SegDesc :=
  setTssParams
    { garbage with
      granularity := 0x0
      opsize := 0x0
      reserved := 0x0
      avail := 0x0
      segLim19_16 := (tssSizeConstant &&& 0x000F0000).setWidth 4
      present := 0x1
      dpl := 0x0
      sys := 0x0
      type := 0x9
      segLim15_00 := (tssSizeConstant &&& 0x0000FFFF).setWidth 16 } tss tssSize

/-- The table of `x86_desc.S`, with the two descriptors that `entry` puts into it. -/
def gdt (tssDesc ldtDesc : SegDesc) : Fin 8 → BitVec 64
  | 0 => 0
  | 1 => 0
  | 2 => 0x00CF9A000000FFFF
  | 3 => 0x00CF92000000FFFF
  | 4 => 0x00CFFA000000FFFF
  | 5 => 0x00CFF2000000FFFF
  | 6 => tssDesc.val
  | 7 => ldtDesc.val

/-- The segment of a selector: the index is in the bits from 3 on. -/
def selected (table : Fin 8 → BitVec 64) (selector : BitVec 16) : Segment :=
  segmentOf (table ⟨(selector >>> 3).toNat % 8, Nat.mod_lt _ (by decide)⟩)

/-- The privilege level that a selector asks for. -/
def requested (selector : BitVec 16) : BitVec 2 := selector.setWidth 2

/--
The segments that the kernel's selectors select, wherever the two tables are:
code and data are the whole address space, with the privilege that their
selectors ask for, and the LDT and the task state are system segments of just
the bytes of theirs.
-/
theorem gdt_selects (garbage garbage' : SegDesc) (tss ldt : BitVec 32) :
    let table := gdt (theTssDesc garbage tss (104 - 1)) (theLdtDesc garbage' ldt (4 * 8 - 1))
    (∀ selector ∈ [kernelCs, kernelDs, userCs, userDs],
      (selected table selector).base = 0 ∧ (selected table selector).size = 0x100000000 ∧
        (selected table selector).present = 1 ∧ (selected table selector).nonsystem = 1 ∧
        (selected table selector).type = (if selector = kernelCs ∨ selector = userCs then 0xA
          else 0x2) ∧
        (selected table selector).dpl = requested selector) ∧
      (selected table kernelTss).base = tss ∧ (selected table kernelTss).size = 104 ∧
      (selected table kernelTss).type = 0x9 ∧ (selected table kernelTss).nonsystem = 0 ∧
      (selected table kernelTss).dpl = 0 ∧ (selected table kernelTss).present = 1 ∧
      (selected table kernelLdt).base = ldt ∧ (selected table kernelLdt).size = 32 ∧
      (selected table kernelLdt).type = 0x2 ∧ (selected table kernelLdt).nonsystem = 0 ∧
      (selected table kernelLdt).dpl = 0 ∧ (selected table kernelLdt).present = 1 := by
  intro table
  have htss : selected table kernelTss =
      { base := tss, limit := 103, type := 0x9, nonsystem := 0, dpl := 0, present := 1
        available := 0, long := 0, big := 0, granular := 0 } := by
    have hsel : selected table kernelTss = segmentOf (theTssDesc garbage tss (104 - 1)).val := rfl
    rw [hsel, theTssDesc, setTssParams, segmentOf_setSegParams, segmentOf_val]
    rfl
  have hldt : selected table kernelLdt =
      { base := ldt, limit := 31, type := 0x2, nonsystem := 0, dpl := 0, present := 1
        available := 0, long := 0, big := 1, granular := 0 } := by
    have hsel : selected table kernelLdt = segmentOf (theLdtDesc garbage' ldt (4 * 8 - 1)).val :=
      rfl
    rw [hsel, theLdtDesc, setLdtParams, segmentOf_setSegParams, segmentOf_val]
    rfl
  rw [htss, hldt]
  refine ⟨?_, rfl, rfl, rfl, rfl, rfl, rfl, rfl, rfl, rfl, rfl, rfl, rfl⟩
  -- the four flat segments are constants of the table
  have hks : selected table kernelCs = segmentOf 0x00CF9A000000FFFF := rfl
  have hkd : selected table kernelDs = segmentOf 0x00CF92000000FFFF := rfl
  have hus : selected table userCs = segmentOf 0x00CFFA000000FFFF := rfl
  have hud : selected table userDs = segmentOf 0x00CFF2000000FFFF := rfl
  intro selector hmem
  simp only [List.mem_cons, List.not_mem_nil, or_false] at hmem
  rcases hmem with rfl | rfl | rfl | rfl
  · rw [hks]
    decide
  · rw [hkd]
    decide
  · rw [hus]
    decide
  · rw [hud]
    decide

end OopsOs
