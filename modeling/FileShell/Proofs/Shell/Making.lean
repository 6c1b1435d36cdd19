import FileShell.Proofs.Disk.Nulls
import FileShell.Proofs.Disk.Paths
import FileShell.Proofs.Shell.Outcomes
import FileShell.Proofs.Storage.CopyTree

/-!
# Making directories

`mkdir` makes the paths of its names in turn and has an error shown for each one that is refused.
On a disk without links, nothing is made for such a name unless its path is too long, and the
directories that are there in the end are those along the paths that nothing stands in the way of.
So neither the order of the names matters to the disk nor how they are spread over lines
(`mkdir_lines`), as long as no more directories are missing above a path than calls may nest. If
more are, the name is refused and nothing is made, and another order may have made some of them
before (`mkdir_limits`).
-/

namespace FileShell

namespace Handler

variable {s : Storage} {session : Session} {names : List Text} {x : Text}

/-- What is shown for a name whose path is refused. -/
def notMade (x : Text) : Text := "Error: Failed to create directory ".toList ++ x

/-- The world after the path of one name was made or refused. -/
def makeOne (s : Storage) (session : Session) (w : World) (x : Text) : World :=
  ((s.makeDirs (session.resolve x) false).orShow (notMade x) w).2

theorem run_mkdir (hn : names ≠ []) (w : World) :
    attempt (standard s) ⟨"mkdir".toList, names⟩ session w =
      ((session, none), names.foldl (makeOne s session) w) := by
  have hr : route (standard s) ⟨"mkdir".toList, names⟩ = (some (mkdir s), names) :=
    route_of_ne (by decide) names
  rw [run_attempt hr]
  unfold mkdir
  simp only [List.isEmpty_eq_false_iff.2 hn, Bool.false_eq_true, if_false, Act.run_bind,
    Act.run_pure, Act.run_forM_lift]
  rfl

end Handler

section

variable {s : Storage} {session : Session} {w : World} {names : List Text} {x : Text}

namespace Handler

variable (hmake : ∀ p, s.refuses .makeDirs p = false)

include hmake

/-- A path is made as far as it can be, and an error is shown if that is not the whole path. -/
theorem makeOne_eq (hs : w.disk.Sound) (hf : w.disk.LinkFree [])
    (hx : ∀ y ∈ (session.resolve x).names, IsName y)
    (hn : w.disk.missingAbove (session.resolve x) ≤ s.nests) :
    makeOne s session w x = ⟨w.disk.tryPath (session.resolve x).reach.names,
      if (session.resolve x).fits && w.disk.free (session.resolve x).names then w.shown
      else w.shown ++ notMade x ++ ['\n']⟩ := by
  have h0 : '\x00' ∉ session.resolve x := fun h => by
    obtain ⟨y, hy, hc⟩ := Path.exists_mem_names (by decide) h
    exact (hx y hy).noNull hc
  obtain ⟨hdisk, hok⟩ := Disk.makeDirs_of_linkFree hs hf (session.resolve_ne_nil x) h0 hx
  rw [makeOne, run_orShow, Storage.run_makeDirs, hmake, if_neg Bool.false_ne_true,
    Storage.making_eq hn, ← hdisk]
  simp only [← hok]
  rcases w.disk.makeDirs false (session.resolve x) with ⟨e | ⟨⟩, d⟩ <;> simp

omit hmake in
/-- Nothing is made of a path that more directories are missing above than calls may nest. -/
theorem makeOne_of_lt (hn : s.nests < w.disk.missingAbove (session.resolve x)) :
    makeOne s session w x = ⟨w.disk, w.shown ++ notMade x ++ ['\n']⟩ := by
  rw [makeOne, run_orShow, Storage.run_makeDirs, Storage.making, if_pos hn]
  rcases s.refuses .makeDirs (session.resolve x) <;> rfl

/-- The loop over the names. -/
theorem foldl_makeOne (hs : w.disk.Sound) (hf : w.disk.LinkFree [])
    (hx : ∀ x ∈ names, ∀ y ∈ (session.resolve x).names, IsName y) :
    let r := Disk.turns s.nests session.resolve names w.disk
    names.foldl (makeOne s session) w = ⟨r.1, w.shown ++ Text.unlines (r.2.map notMade)⟩ := by
  induction names generalizing w with
  | nil => simp [Disk.turns, Text.unlines]
  | cons x names ih =>
    obtain ⟨hx, hnames⟩ := List.forall_mem_cons.1 hx
    have hreach : ∀ y ∈ (session.resolve x).reach.names, IsName y := fun y hy =>
      hx y ((session.resolve x).mem_names_of_reach hy)
    have hmore := Disk.moreDirectories_tryPath w.disk (session.resolve x).reach.names
    rw [List.foldl_cons, Disk.turns]
    by_cases hn : s.nests < w.disk.missingAbove (session.resolve x)
    · rw [makeOne_of_lt hn, if_pos hn]
      refine (ih (w := ⟨w.disk, w.shown ++ notMade x ++ ['\n']⟩) hs hf hnames).trans ?_
      simp [Text.unlines_cons]
    · rw [makeOne_eq hmake hs hf hx (Nat.not_lt.1 hn), if_neg hn]
      refine (ih (w := ⟨w.disk.tryPath _, _⟩) (hs.tryPath hreach) (.of_moreDirectories hmore hf)
        hnames).trans ?_
      dsimp only
      split_ifs
      · rfl
      · simp [Text.unlines_cons]

end Handler

/-- The lines one after the other are one loop over all the names. -/
theorem foldl_mkdir {rows : List (Text × List Text)}
    (hrows : ∀ row ∈ rows, '>' ∉ row.1 ∧ row.2 ≠ [] ∧
      Command.parse? row.1 = some ⟨"mkdir".toList, row.2⟩) (w : World) :
    rows.foldl (fun r row => runLine s row.1 r.1 r.2) (session, w) =
      (session, (rows.flatMap Prod.snd).foldl (Handler.makeOne s session) w) := by
  induction rows generalizing w with
  | nil => rfl
  | cons row rows ih =>
    obtain ⟨⟨hplain, hn, hcmd⟩, hrows⟩ := List.forall_mem_cons.1 hrows
    rw [List.foldl_cons, List.flatMap_cons, List.foldl_append]
    dsimp only
    rw [runLine_of_execute (execute_plain hplain hcmd ▸ Handler.run_mkdir hn w)]
    exact ih hrows _

end

/-- `mkdir` does not depend on the order of its names.

On a disk without links, however the names are spread over lines, they have their turns one after
the other. An error is shown for a name if at its turn more directories are missing above its path
than calls may nest, if the path is too long, or if it is not free. Whatever the order of the names,
unless too many directories are missing above one of their paths to begin with, each place along the
path of a name is a directory afterwards, if nothing but directories stood at the end of the path
and above it, and everything else is as it was. Of a path that is too long only the part above it
counts that is not. -/
theorem mkdir_lines {s : Storage} {session : Session} {d : Disk} {t : Text} {names : List Text}
    {rows : List (Text × List Text)} (hs : d.Sound) (hf : d.LinkFree [])
    (hmake : ∀ p, s.refuses .makeDirs p = false)
    (hnames : ∀ x ∈ names, ∀ y ∈ (session.resolve x).names, IsName y)
    (hrows : ∀ row ∈ rows, '>' ∉ row.1 ∧ row.2 ≠ [] ∧
      Command.parse? row.1 = some ⟨"mkdir".toList, row.2⟩)
    (hperm : (rows.flatMap Prod.snd).Perm names) :
    let place (x : Text) : Loc := (session.resolve x).reach.names
    let r := Disk.turns s.nests session.resolve (rows.flatMap Prod.snd) d
    rows.foldl (fun r row => runLine s row.1 r.1 r.2) (session, ⟨d, t⟩) =
        (session, ⟨r.1, t ++ Text.unlines (r.2.map Handler.notMade)⟩) ∧
      ((∀ x ∈ names, d.missingAbove (session.resolve x) ≤ s.nests) → ∀ k, r.1.get? k =
        if ∃ x ∈ names, k <+: place x ∧ d.blocked (place x) = false then some .directory
        else d.get? k) := by
  intro place r
  have hx : ∀ x ∈ rows.flatMap Prod.snd, ∀ y ∈ (session.resolve x).names, IsName y :=
    fun x h => hnames x (hperm.mem_iff.1 h)
  constructor
  · rw [foldl_mkdir hrows, Handler.foldl_makeOne hmake (w := ⟨d, t⟩) hs hf hx]
  · intro hn k
    simp only [← hperm.mem_iff]
    exact hs.get?_turns hx (fun x h => hn x (hperm.mem_iff.1 h)) k

/-- A file and a directory with a file in it. -/
def plot : Disk where
  items := [(["d".toList], .directory), (["d".toList, "f".toList], .file []),
    (["g".toList], .file [])]

theorem sound_plot : plot.Sound :=
  Disk.sound_of_items (by decide) (by decide) (by simp [plot])

/-- A name is refused after one that goes further down was made, and not the other way round. -/
theorem mkdir_lines_plot :
    let s : Storage := { chunk := 512 }
    let session : Session := ⟨"/d".toList, "/".toList, true⟩
    let place (x : Text) : Loc := (session.resolve x).reach.names
    let names := ["a", "a//b", "f/x", "/d/c/", "/g"].map String.toList
    let type (lines : List Text) := lines.foldl (fun r line => runLine s line r.1 r.2)
      (session, ⟨plot, []⟩)
    ∃ d₁ d₂, type [" mkdir a//b a".toList, "mkdir f/x /d/c/ /g".toList] =
        (session, ⟨d₁, ("Error: Failed to create directory a\n" ++
          "Error: Failed to create directory f/x\nError: Failed to create directory /g\n").toList⟩) ∧
      type ["mkdir /g a f/x a//b /d/c/".toList] =
        (session, ⟨d₂, ("Error: Failed to create directory /g\n" ++
          "Error: Failed to create directory f/x\n").toList⟩) ∧
      ∀ d ∈ [d₁, d₂], ∀ k, d.get? k =
        if ∃ x ∈ names, k <+: place x ∧ plot.blocked (place x) = false then some .directory
        else plot.get? k := by
  intro s session place names type
  have h (rows : List (Text × List Text)) := @mkdir_lines s session plot [] names rows sound_plot
    (fun k t _ => Disk.get?_ne_link_of_items (by simp [plot]) k t) (fun _ => rfl) (by decide +kernel)
  obtain ⟨hrun₁, hget₁⟩ := h
    [(" mkdir a//b a".toList, ["a//b", "a"].map String.toList),
      ("mkdir f/x /d/c/ /g".toList, ["f/x", "/d/c/", "/g"].map String.toList)]
    (by decide +kernel) (by decide +kernel)
  obtain ⟨hrun₂, hget₂⟩ := h
    [("mkdir /g a f/x a//b /d/c/".toList, ["/g", "a", "f/x", "a//b", "/d/c/"].map String.toList)]
    (by decide +kernel) (by decide +kernel)
  have hfew : ∀ x ∈ names, plot.missingAbove (session.resolve x) ≤ s.nests := by decide +kernel
  refine ⟨_, _, hrun₁.trans ?_, hrun₂.trans ?_, List.forall_mem_cons.2 ⟨hget₁ hfew,
    List.forall_mem_singleton.2 (hget₂ hfew)⟩⟩
  · exact congrArg (fun t => (session, World.mk _ t)) (by decide +kernel)
  · exact congrArg (fun t => (session, World.mk _ t)) (by decide +kernel)

/-- A directory and a device. -/
def shed : Disk where
  items := [(["d".toList], .directory), (["dev".toList], .directory),
    (["dev".toList, "null".toList], .device)]

theorem sound_shed : shed.Sound :=
  Disk.sound_of_items (by decide) (by decide) (by simp [shed])

theorem linkFree_shed : shed.LinkFree [] :=
  fun k t _ => Disk.get?_ne_link_of_items (by simp [shed]) k t

/-- A path that is too long by its last name. -/
theorem reach_far_join_join : ((Storage.far 4092).join ['a'] |>.join ['b']).fits = false ∧
    ((Storage.far 4092).join ['a'] |>.join ['b']).reach = (Storage.far 4092).join ['a'] := by
  set p := (Storage.far 4092).join ['a'] with hp
  have hsize : p.byteSize = 4095 := by
    rw [hp, Storage.byteSize_join_far _ (by decide)]
    rfl
  have hlast : p.getLast? ≠ some '/' := Path.getLast?_join _ (by decide) (by decide)
  have hlong : (p.join ['b']).fits = false := eq_false_of_ne_true fun h => by
    have hlt := Path.byteSize_join_lt p (x := ['b']) (by decide) (by decide)
    have hle := Path.fits_iff.1 h
    rw [Disk.maxPath] at hle
    omega
  have habove : (p.join ['b']).splitLast = (p, ['b']) := by
    rw [Path.splitLast_join p (by decide) (by decide),
      Path.parent_join (Path.join_ne_nil _ (by decide)) hlast (by decide)]
  refine ⟨hlong, ?_⟩
  rw [Path.reach, dif_pos ⟨hlong, by simp [habove]⟩, habove,
    Path.reach_of_fits (Path.fits_iff.2 hsize.le)]

/-- Nothing is made below a device. Where there is no path that is short enough, an error is shown
and what is above is made nevertheless. If fewer calls may nest than directories are missing, it is
up to the order of the names what is made. -/
theorem mkdir_limits :
    let s : Storage := { chunk := 512 }
    let here : Session := ⟨"/".toList, "/".toList, true⟩
    let far : Session := ⟨Storage.far 4092, "/".toList, true⟩
    shed.LinkFree [] ∧ (∀ l b, shed.get? l ≠ some (.file b)) ∧
    (here.resolve "/dev/null/x".toList).names = ["dev", "null", "x"].map String.toList ∧
    shed.get? (["dev", "null", "x"].map String.toList) = none ∧
    outcome s "mkdir /dev/null/x".toList here shed =
      ⟨"Error: Failed to create directory /dev/null/x\n".toList, here, shed, none⟩ ∧
    (far.resolve "a/b".toList).names = ["d", "a", "b"].map String.toList ∧
    shed.get? (["d", "a", "b"].map String.toList) = none ∧
    outcome s "mkdir a/b".toList far shed =
      ⟨"Error: Failed to create directory a/b\n".toList, far,
        shed.insert (["d", "a"].map String.toList) .directory, none⟩ ∧
    outcome { s with nests := 1 } "mkdir a/b/c".toList here shed =
      ⟨"Error: Failed to create directory a/b/c\n".toList, here, shed, none⟩ ∧
    [["mkdir a/b/c a/b"], ["mkdir a/b a/b/c"]].map (fun lines =>
      ((outcomes { s with nests := 1 } (lines.map String.toList) here shed).map fun o =>
        (o.shown, o.disk.isDir "/a/b/c".toList))) =
      [[("Error: Failed to create directory a/b/c\n".toList, false)], [([], true)]] := by
  intro s here far
  have hfar : far.resolve "a/b".toList = ((Storage.far 4092).join ['a']).join ['b'] := by
    have hlast : ((Storage.far 4092).join ['a']).getLast? ≠ some '/' :=
      Path.getLast?_join _ (by decide) (by decide)
    rw [Path.join_eq_of_relative rfl, if_neg (by simp [hlast, Path.join_ne_nil]),
      Storage.join_far _ (by decide), List.append_assoc]
    rfl
  obtain ⟨hlong, hreach⟩ := reach_far_join_join
  rw [← hfar] at hlong hreach
  have hnames : (far.resolve "a/b".toList).names = ["d", "a", "b"].map String.toList := by
    rw [hfar, Path.names_join_name _ (by decide) (by decide),
      Path.names_join_name _ (by decide) (by decide), Storage.names_far]
    rfl
  refine ⟨linkFree_shed, fun l b => Disk.get?_ne_of_items (by simp) (by simp [shed]) l,
    by decide +kernel, rfl, ?_, hnames, rfl, ?_, by decide +kernel, by decide +kernel⟩
  · refine outcome_plain (c := ⟨"mkdir".toList, ["/dev/null/x".toList]⟩) (by decide) (by decide) ?_
    rw [Handler.run_mkdir (List.cons_ne_nil _ _), Handler.foldl_makeOne (fun _ => rfl) sound_shed
      linkFree_shed (by decide +kernel)]
    exact congrArg₂ (fun d t => ((here, none), World.mk d t)) (by decide +kernel)
      (by decide +kernel)
  · refine outcome_plain (c := ⟨"mkdir".toList, ["a/b".toList]⟩) (by decide) (by decide) ?_
    have hfew : shed.missingAbove (far.resolve "a/b".toList) ≤ s.nests := by
      refine (Disk.missingAbove_le_length_names shed _).trans ?_
      rw [hnames]
      decide
    rw [Handler.run_mkdir (List.cons_ne_nil _ _), List.foldl_cons, List.foldl_nil,
      Handler.makeOne_eq (fun _ => rfl) sound_shed linkFree_shed (by rw [hnames]; decide) hfew,
      hreach, hlong, Path.names_join_name _ (by decide) (by decide), Storage.names_far]
    exact congrArg₂ (fun d t => ((far, none), World.mk d t)) (by decide +kernel)
      (by decide +kernel)

end FileShell
