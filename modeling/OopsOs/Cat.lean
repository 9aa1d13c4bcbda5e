import OopsOs.Executables
import OopsOs.UserCalls

/-!
# `cat`

`cat` opens the name that it was started with and copies what it reads to
descriptor 1, at most 1024 bytes at a time.  `execute` hands it the name, `open`
looks it up, and the reads deliver what stands behind it: the whole way from
the command line to the output is in `cat_prints_contents`.
-/

namespace OopsOs

open ByteMem Programs

/-! ## The program -/

/-- One turn of the loop of `main`. -/
def catTurn (fd : Int) (buf : Buffer) : UserProgram (Buffer ⊕ Int) :=
  .call (.read fd 1024) (fun cnt =>
    if cnt.value = 0 then .done (.inr 0)
    else if cnt.value = -1 then (putsText "file read failed\n").bind (fun _ => .done (.inr 3))
    else
      let buf := filled buf cnt.stores
      .call (.write 1 buf cnt.value) (fun r =>
        if r.value = -1 then .done (.inr 3) else .done (.inl buf)))

/-- `main` of `ece391cat.c`, with `buf` as the stack has it. -/
def catMain (turns : Nat) (buf : Buffer) : UserProgram Int :=
  .call (.getargs 1024) (fun r =>
    if r.value ≠ 0 then (putsText "could not read arguments\n").bind (fun _ => .done 3)
    else
      let buf := filled buf r.stores
      .call (.openFile buf) (fun fd =>
        if fd.value = -1 then (putsText "file not found\n").bind (fun _ => .done 2)
        else .loop (catTurn fd.value) turns buf))

/-! ## What it is to print -/

/-- The output and the status of `cat` with the argument `a`. -/
def catResult (fs : Mem) (a : List UInt8) : List UInt8 × Int :=
  if a = [] then (literal "could not read arguments\n", 3)
  else
    match contents fs a with
    | none => (literal "file not found\n", 2)
    | some l => (l, 0)

section Run

variable {others : Kernel → Kernel → Prop} {pid : Fin 6} (hothers : LeavesAlone others pid)
variable {k : Kernel}
include hothers

/-- The loop copies what the descriptor has yet to deliver. -/
theorem ensures_catLoop {fd : Fin 8} {turns : Nat} {buf : Buffer} {l : List UInt8}
    (hstd : Standard pid k) (hl : Delivers pid fd k l) (hturns : l.length < turns) :
    (Program.loop (catTurn fd.val) turns buf).Ensures (Serves others pid)
      (fun t o _ => o = some 0 ∧ stdout t = l ∧ ∀ c ∈ t, Quiet c) k := by
  refine Program.ensures_loop (I := fun l _ k => Standard pid k ∧ Delivers pid fd k l)
    (K := fun l t o _ => o = some 0 ∧ stdout t = l ∧ ∀ c ∈ t, Quiet c) (m := List.length) ?_ hturns
    ⟨hstd, hl⟩
  rintro l buf k ⟨hstd, hl⟩ cnt k₁ hread
  obtain ⟨c, rest, rfl, hend, hv, hst, hrest⟩ :=
    hl.read hothers (by decide) (by decide) hread
  have hstd₁ := hstd.of_own hl.user (serves_read_own hothers hread)
  have hvalue : cnt.value ≠ -1 := by omega
  have hquiet : Quiet (.read fd.val 1024, cnt) := ⟨hvalue, by decide⟩
  beta_reduce
  by_cases hc : c = []
  · have hnil := hend hc
    rw [if_pos (by rw [hv, hc]; rfl)]
    exact .inl ⟨0, rfl, rfl, by rw [hnil]; rfl, List.forall_mem_singleton.mpr hquiet⟩
  · have hpos : 0 < c.length := List.length_pos_iff.mpr hc
    rw [if_neg (by omega), if_neg (by omega)]
    intro r k₂ hwrite
    beta_reduce
    rw [hst, filled_storesOf, hv] at hwrite ⊢
    obtain ⟨hr, hsame⟩ := serves_write hothers hstd₁ (Int.natCast_nonneg _) hwrite
    rw [if_neg (by omega)]
    refine .inr ⟨_, rest, rfl, ?_, ⟨?_, ?_⟩, ?_⟩
    · rw [List.length_append]
      omega
    · exact hstd₁.of_same (fun fd _ => hsame.descriptor fd)
    · exact hrest.of_same hsame.fs (hsame.descriptor fd)
    · rintro t o k' ⟨rfl, rfl, hrestQuiet⟩
      refine ⟨rfl, ?_, ?_⟩
      · simp only [List.cons_append, List.nil_append, stdout_cons,
          written_of_shows (Buffer.shows_write buf 0 c)]
        rfl
      · have hvalue : r.value ≠ -1 := by omega
        have hwritten : Quiet (.write 1 (buf.write 0 c) c.length, r) := hvalue
        exact List.forall_mem_cons.mpr ⟨hquiet, List.forall_mem_cons.mpr ⟨hwritten, hrestQuiet⟩⟩

theorem ensures_catMain {a : List UInt8} (h : Begun pid a k) (hnul : ∀ c ∈ a, c ≠ 0)
    (hlen : a.length ≤ 31) (hwf : WellFormed k.fs) (hrecorded : a ≠ [] → NameRecorded k.fs a)
    {turns : Nat} (hturns : (catResult k.fs a).1.length < turns) (buf : Buffer) :
    (catMain turns buf).Ensures (Serves others pid)
      (fun t o _ => o = some (catResult k.fs a).2 ∧ stdout t = (catResult k.fs a).1 ∧
        (contents k.fs a ≠ none → ∀ c ∈ t, Quiet c)) k := by
  intro r k₁ hargs
  obtain ⟨hsame, hcase⟩ := serves_getargs hothers h hnul hargs
  have hstd : Standard pid k₁ := h.toStandard.of_same (fun fd _ => hsame.descriptor fd)
  beta_reduce
  rcases hcase with ⟨rfl, hv⟩ | ⟨ha, hv, hst⟩
  · rw [if_pos (by rw [hv]; decide), catResult, if_pos rfl]
    refine (ensures_complaint hothers (literal_nonzero (by decide)) hstd 3).mono ?_
    rintro t o k' ⟨rfl, ht, -⟩
    exact ⟨rfl, ht, fun hcontents => absurd rfl hcontents⟩
  · rw [if_neg (by rw [hv]; decide), catResult, if_neg ha]
    rw [catResult, if_neg ha] at hturns
    have hname : StringAt (filled buf r.stores) 0 a := by
      rw [hst]
      exact stringAt_arguments buf hnul hlen
    have hfree : ∃ fd, (descriptor k₁ pid fd).flags = 0 := by
      refine ⟨2, ?_⟩
      rw [hsame.descriptor]
      exact h.free 2 (by decide)
    intro fd k₂ hopen
    beta_reduce
    rw [← hsame.fs] at hwf hrecorded hturns ⊢
    rcases serves_open hothers hstd hfree hwf hname (hrecorded ha) hopen with
      ⟨hnone, hv, hsame'⟩ | ⟨l, loc, hsome, hv, hl, -, hown⟩
    · have hstd' : Standard pid k₂ := hstd.of_same (fun fd _ => hsame'.descriptor fd)
      rw [hnone, if_pos hv]
      refine (ensures_complaint hothers (literal_nonzero (by decide)) hstd' 2).mono ?_
      rintro t o k' ⟨rfl, ht, -⟩
      exact ⟨rfl, ht, fun hcontents => absurd rfl hcontents⟩
    · rw [hsome] at hturns ⊢
      rw [if_neg (by omega), hv]
      refine (ensures_catLoop hothers (hstd.of_own hl.user hown) hl hturns).mono ?_
      rintro t o k' ⟨rfl, ht, hloop⟩
      have hargs : r.value ≠ -1 := by omega
      have hfd : fd.value ≠ -1 := by omega
      exact ⟨rfl, ht, fun _ =>
        List.forall_mem_cons.mpr ⟨hargs, List.forall_mem_cons.mpr ⟨hfd, hloop⟩⟩⟩

end Run

/--
A process is started on a well-formed image with the argument `a`, and runs
`cat`.  The argument has room for its NUL, and is not the name of a slot behind
the recorded ones; none at all is an argument too.  While others leave the image
and the control block of the process alone, `cat` writes exactly the bytes that
stand behind the name, and its status says whether there are any.
-/
theorem cat_prints_contents {k₀ : Kernel} {name a : List UInt8} {saved : Context} {pid : Fin 6}
    (hname : ∀ c ∈ name, c ≠ 0 ∧ c ≠ 0x20) (ha : ∀ c ∈ a, c ≠ 0) (hlen : a.length ≤ 31)
    (hwf : WellFormed k₀.fs) (hrecorded : a ≠ [] → NameRecorded k₀.fs a)
    (hexec : (execute k₀ (name ++ 0x20 :: a) saved).2 = some pid)
    {others : Kernel → Kernel → Prop} (hothers : LeavesAlone others pid)
    {turns : Nat} (hturns : (catResult k₀.fs a).1.length < turns) {buf : Buffer}
    {t : Trace} {o : Option Int} {k : Kernel}
    (hrun : (catMain turns buf).Runs (Serves others pid)
      (execute k₀ (name ++ 0x20 :: a) saved).1 t o k) :
    o = some (catResult k₀.fs a).2 ∧ stdout t = (catResult k₀.fs a).1 := by
  obtain ⟨hbegun, hfs⟩ := execute_begun hexec
  rw [parse_command hname ha] at hbegun
  rw [← hfs] at hwf hrecorded hturns ⊢
  obtain ⟨ho, ht, -⟩ := Program.ensures_iff.mp
    (ensures_catMain hothers hbegun ha hlen hwf hrecorded hturns buf) t o k hrun
  exact ⟨ho, ht⟩

/-- `shell shell`, with `cat` in the place of the shell, and nobody else. -/
theorem cat_runs_shell :
    ∃ t k, (catMain 5 (fun _ => 0)).Runs (Serves Eq 0)
      (execute (Kernel.zero (fun _ => 0) shellImage) (shellCommand ++ 0x20 :: shellCommand)
        .zero).1 t (some 0) k := by
  have hvals : ((catMain 5 (fun _ => 0)).exec (serveAlone id 0)
      (execute (Kernel.zero (fun _ => 0) shellImage) (shellCommand ++ 0x20 :: shellCommand)
        .zero).1).map (fun z => z.2.1) = some (some 0) := by
    decide +kernel
  obtain ⟨⟨t, o, k⟩, hexec, ho⟩ := Option.map_eq_some_iff.mp hvals
  obtain rfl : o = some 0 := ho
  exact ⟨t, k, Program.runs_of_exec (serves_of_serveAlone (fun _ => rfl) (fun _ => rfl)) hexec⟩

theorem nameRecorded_shell : NameRecorded shellImage shellCommand := by
  have hfind : readDentryByName shellImage shellCommand = some 0 := by decide +kernel
  intro i hi
  rw [hfind] at hi
  cases hi
  decide +kernel

/-- The four bytes of the file `shell`. -/
theorem cat_prints_contents_shell :
    ∃ t k, (catMain 5 (fun _ => 0)).Runs (Serves Eq 0)
        (execute (Kernel.zero (fun _ => 0) shellImage) (shellCommand ++ 0x20 :: shellCommand)
          .zero).1 t (some 0) k ∧
      stdout t = [0x7F, 0x45, 0x4C, 0x46] := by
  obtain ⟨t, k, hrun⟩ := cat_runs_shell
  have hresult : catResult shellImage shellCommand = ([0x7F, 0x45, 0x4C, 0x46], 0) := by
    decide +kernel
  obtain ⟨-, hout⟩ := cat_prints_contents (by simp [shellCommand]) (by simp [shellCommand])
    (by decide) shellImage_wellFormed (fun _ => nameRecorded_shell) (by decide +kernel)
    (leavesAlone_eq 0)
    (by rw [show (Kernel.zero (fun _ => 0) shellImage).fs = shellImage from rfl, hresult]; decide)
    hrun
  exact ⟨t, k, hrun, hout.trans (congrArg Prod.fst hresult)⟩

end OopsOs
