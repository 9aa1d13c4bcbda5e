import OopsOs.UserCalls

/-!
# `ls`

`ls` opens `.` and writes each name that it reads with a newline behind it.  A
name field of 32 bytes is written whole, with the NULs behind the name, which
`terminal_write` does not print.  The names are those of the first 17 slots of
the directory, whatever number of entries is recorded.
-/

namespace OopsOs

open ByteMem Programs

/-! ## The program -/

/-- One turn of the loop of `main`. -/
def lsTurn (fd : Int) (buf : Buffer) : UserProgram (Buffer ⊕ Int) :=
  .call (.read fd 32) (fun cnt =>
    if cnt.value = 0 then .done (.inr 0)
    else if cnt.value = -1 then
      (putsText "directory entry read failed\n").bind (fun _ => .done (.inr 3))
    else
      let buf := Function.update (filled buf cnt.stores) cnt.value.toNat 0x0A
      .call (.write 1 buf (cnt.value + 1)) (fun r =>
        if r.value = -1 then .done (.inr 3) else .done (.inl buf)))

/-- `main` of `ece391ls.c`, with `buf` as the stack has it. -/
def lsMain (turns : Nat) (buf : Buffer) : UserProgram Int :=
  .call (.openFile (cstr dotName)) (fun fd =>
    if fd.value = -1 then (putsText "directory open failed\n").bind (fun _ => .done 2)
    else .loop (lsTurn fd.value) turns buf)

/-! ## What it writes -/

theorem nameField_eq (fs : Mem) (i : Nat) :
    nameField fs i = entryName fs i ++ List.replicate (32 - (entryName fs i).length) 0 := by
  have hlen : (entryName fs i).length ≤ 32 := length_textFrom_le _ 0 32
  apply List.ext_getElem
  · rw [length_nameField, List.length_append, List.length_replicate]
    omega
  · intro j hj hj'
    rw [length_nameField] at hj
    simp only [nameField, List.getElem_map, List.getElem_range]
    rcases Nat.lt_or_ge j (entryName fs i).length with hlt | hge
    · rw [List.getElem_append_left hlt, List.getD_eq_getElem _ _ hlt]
    · rw [List.getElem_append_right hge, List.getElem_replicate, List.getD_eq_default _ _ hge]

/-- The NULs of a name field are all behind the name. -/
theorem nameField_filter (fs : Mem) (i : Nat) :
    (nameField fs i).filter (fun c => c ≠ 0) = entryName fs i := by
  rw [nameField_eq, List.filter_append]
  have hname : (entryName fs i).filter (fun c => c ≠ 0) = entryName fs i := by
    apply List.filter_eq_self.mpr
    intro c hc
    simpa using ne_zero_of_mem_textFrom hc
  rw [hname]
  simp

/-- The lines for the slots from `i` on. -/
def listedLines (fs : Mem) (i : Nat) : List UInt8 :=
  (List.range' i (17 - i)).flatMap (fun j => nameField fs j ++ [0x0A])

theorem listedLines_cons (fs : Mem) {i : Nat} (h : i < 17) :
    listedLines fs i = nameField fs i ++ [0x0A] ++ listedLines fs (i + 1) := by
  rw [listedLines, show 17 - i = (17 - (i + 1)) + 1 by omega, List.range'_succ, List.flatMap_cons]
  rfl

theorem listedLines_filter (fs : Mem) :
    (listedLines fs 0).filter (fun c => c ≠ 0) =
      (List.range 17).flatMap (fun i => entryName fs i ++ [0x0A]) := by
  rw [listedLines, List.filter_flatMap, ← List.range_eq_range']
  congr 1
  funext i
  rw [List.filter_append, nameField_filter]
  rfl

/-- The name `.` stands for the directory. -/
def DotIsDirectory (fs : Mem) : Prop :=
  ∃ i, readDentryByName fs dotName = some i ∧ (dentryAt fs i).type = 1

/-- The directory descriptor before entry `i`. -/
structure ListsFrom (fs : Mem) (pid : Fin 6) (fd : Fin 8) (i : Nat) (k : Kernel) : Prop where
  image : k.fs = fs
  user : 2 ≤ fd.val
  flags : (descriptor k pid fd).flags = 1
  rest : ListingRest (descriptor k pid fd) i

section Run

variable {others : Kernel → Kernel → Prop} {pid : Fin 6} (hothers : LeavesAlone others pid)
variable {k : Kernel}
include hothers

theorem ensures_lsLoop {fs : Mem} {fd : Fin 8} {turns : Nat} {buf : Buffer}
    (hstd : Standard pid k) (hlist : ListsFrom fs pid fd 0 k) (hturns : 17 < turns) :
    (Program.loop (lsTurn fd.val) turns buf).Ensures (Serves others pid)
      (fun t o _ => o = some 0 ∧ stdout t = listedLines fs 0) k := by
  refine Program.ensures_loop
    (I := fun i _ k => Standard pid k ∧ ListsFrom fs pid fd i k)
    (K := fun i t o _ => o = some 0 ∧ stdout t = listedLines fs i)
    (m := fun i => 17 - i) ?_ hturns ⟨hstd, hlist⟩
  rintro i buf k ⟨hstd, himage, h2, hflags, hrest⟩ cnt k₁ hread
  have hstd₁ := hstd.of_own h2 (serves_read_own hothers hread)
  obtain ⟨hfs, hflags₁, hcase⟩ := serves_read_listing hothers h2 hflags hrest hread
  beta_reduce
  rcases hcase with ⟨hlt, hv, hst, hnext⟩ | ⟨rfl, hv, -, -⟩
  · rw [if_neg (by omega), if_neg (by omega)]
    intro r k₂ hwrite
    beta_reduce
    have hcount : cnt.value + 1 = ((nameField fs i ++ [0x0A]).length : Int) := by
      rw [hv, List.length_append, length_nameField]
      rfl
    have hbuf : Function.update (filled buf cnt.stores) cnt.value.toNat 0x0A =
        buf.write 0 (nameField fs i ++ [0x0A]) := by
      rw [hst, filled_storesOf, himage, hv, Buffer.update_eq_write, ← Buffer.write_append,
        length_nameField]
      rfl
    rw [hbuf, hcount] at hwrite ⊢
    obtain ⟨hr, hsame⟩ := serves_write hothers hstd₁ (Int.natCast_nonneg _) hwrite
    rw [if_neg (by omega)]
    refine .inr ⟨_, i + 1, rfl, by omega, ⟨?_, ?_⟩, ?_⟩
    · exact hstd₁.of_same (fun fd _ => hsame.descriptor fd)
    · refine ⟨hsame.fs.trans (hfs.trans himage), h2, ?_, ?_⟩
      · rw [hsame.descriptor, hflags₁]
      · rw [hsame.descriptor]
        exact hnext
    · rintro t o k' ⟨rfl, ht⟩
      refine ⟨rfl, ?_⟩
      rw [listedLines_cons fs hlt, ← ht]
      simp only [List.cons_append, List.nil_append, stdout_cons,
        written_of_shows (Buffer.shows_write buf 0 (nameField fs i ++ [0x0A]))]
      rfl
  · rw [if_pos hv]
    exact .inl ⟨0, rfl, rfl, rfl⟩

theorem ensures_lsMain {turns : Nat} {a : List UInt8} (h : Begun pid a k)
    (hdot : DotIsDirectory k.fs) (hturns : 17 < turns) (buf : Buffer) :
    (lsMain turns buf).Ensures (Serves others pid)
      (fun t o _ => o = some 0 ∧ stdout t = listedLines k.fs 0) k := by
  intro fd k₁ hopen
  beta_reduce
  obtain ⟨i, hi, htype⟩ := hdot
  have hname : StringAt (cstr dotName) 0 dotName := stringAt_cstr (by simp [dotName])
  rcases serves_open_cases hothers ⟨2, h.free 2 (by decide)⟩ hname hopen with
    ⟨hnone, -, -⟩ | ⟨k₂, i', l, loc, hsame, hi', -, -, hv, hopens⟩
  · rw [contents, if_neg (by decide), hi, Option.bind_some, entryContents,
      if_neg (by rw [htype]; decide), if_pos htype] at hnone
    cases hnone
  · obtain rfl := Option.some.inj (hi.symm.trans hi')
    have hstd : Standard pid k₂ := h.toStandard.of_same (fun fd _ => hsame.descriptor fd)
    have h2 := hopens.user hstd
    have hfs := hopens.only.fs.trans hsame.fs
    obtain ⟨op, inode, pos, hkind, hd⟩ := hopens.entry
    rw [hsame.fs, openKind, htype] at hkind
    cases hkind
    rw [if_neg (by omega), hv]
    refine ensures_lsLoop hothers (hstd.of_own h2 hopens.only.own) ⟨hfs, h2, ?_, ?_⟩ hturns
    · rw [hd]
    · rw [hd]
      exact ⟨rfl, rfl, by decide⟩

end Run

/--
A process that runs `ls` on an image with its directory writes 17 lines, for
the first 17 slots of the directory in order, and what it writes other than
NULs are the names and the newlines, as long as others leave the image and the
control block of the process alone.
-/
theorem ls_lists_names {k₀ : Kernel} {cmd : List UInt8} {saved : Context} {pid : Fin 6}
    (hdot : DotIsDirectory k₀.fs) (hexec : (execute k₀ cmd saved).2 = some pid)
    {others : Kernel → Kernel → Prop} (hothers : LeavesAlone others pid)
    {turns : Nat} (hturns : 17 < turns) {buf : Buffer} {t : Trace} {o : Option Int} {k : Kernel}
    (hrun : (lsMain turns buf).Runs (Serves others pid) (execute k₀ cmd saved).1 t o k) :
    o = some 0 ∧ (stdout t).filter (fun c => c ≠ 0) =
      (List.range 17).flatMap (fun i => entryName k₀.fs i ++ [0x0A]) := by
  obtain ⟨hbegun, hfs⟩ := execute_begun hexec
  rw [← hfs] at hdot
  obtain ⟨ho, hout⟩ := Program.ensures_iff.mp
    (ensures_lsMain hothers hbegun hdot hturns buf) t o k hrun
  rw [hfs] at hout
  exact ⟨ho, by rw [hout, listedLines_filter]⟩

/-- The image of the file `shell` with the directory as its second entry. -/
def shellDirectory : Mem := fun a =>
  if a = 0 then 2
  else if a = 128 then 0x2E
  else if a = 160 then 1
  else shellImage a

/-- Two names, and an empty line for each of the other fifteen slots. -/
theorem ls_lists_names_shell :
    ∃ t k, (lsMain 18 (fun _ => 0)).Runs (Serves Eq 0)
        (execute (Kernel.zero (fun _ => 0) shellDirectory) shellCommand .zero).1 t (some 0) k ∧
      (stdout t).filter (fun c => c ≠ 0) =
        shellCommand ++ [0x0A] ++ dotName ++ List.replicate 16 0x0A := by
  have hvals : ((lsMain 18 (fun _ => 0)).exec (serveAlone id 0)
      (execute (Kernel.zero (fun _ => 0) shellDirectory) shellCommand .zero).1).map
        (fun z => z.2.1) = some (some 0) := by
    decide +kernel
  obtain ⟨⟨t, o, k⟩, hexec, ho⟩ := Option.map_eq_some_iff.mp hvals
  obtain rfl : o = some 0 := ho
  have hrun := Program.runs_of_exec (serves_of_serveAlone (fun _ => rfl) (fun _ => rfl)) hexec
  have hdot : DotIsDirectory shellDirectory := ⟨1, by decide +kernel, by decide +kernel⟩
  obtain ⟨-, hout⟩ := ls_lists_names hdot (by decide +kernel) (leavesAlone_eq 0) (by decide) hrun
  refine ⟨t, k, hrun, hout.trans ?_⟩
  decide +kernel

end OopsOs
