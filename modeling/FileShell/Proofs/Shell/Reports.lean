import FileShell.Proofs.Archive.Labels
import FileShell.Proofs.Shell.Archives
import FileShell.Proofs.Shell.Words

/-!
# What packing reports

A command `zip -r` shows one line for each item that is not there, and one for all that it comes by
and cannot add. Such a line says what failed by a label, and the label leads there if the item was
asked for by a relative path. Of an item with an absolute path the label of what is below it has
lost the first slash, and leads elsewhere (`label_astray`).
-/

namespace FileShell

open Packing (Setting)

theorem Handler.dispatch_zip {s : Storage} {archive : Text} {labels : List Text} {session : Session}
    {w : World} (hn : labels ≠ []) :
    dispatch (standard s) ⟨"zip".toList, "-r".toList :: archive :: labels⟩ session w =
      match (pack s (archivePath (session.resolve archive)) (session.packItems labels) true).run w with
      | (.ok _, w') => (session, w')
      | (.error e, w') => (session, { w' with
          shown := w'.shown ++ (CommandError.cannotPack.overArchive e).report }) := by
  obtain ⟨t, ts, rfl⟩ := List.exists_cons_of_ne_nil hn
  rw [run_dispatch (route_zip _), run_zip]
  rcases (pack s (archivePath (session.resolve archive)) _ true).run w with ⟨_ | _, w'⟩ <;> rfl

theorem CommandError.report_overArchive {e : ArchiveError} (he : ∀ r, e ≠ .stopped r) :
    (cannotPack.overArchive e).report = "Error: Cannot create zip file\n".toList := by
  cases e with
  | stopped r => exact absurd rfl (he r)
  | _ => rfl

/-- What `zip -r` reports of its items, whatever links there are and whichever calls are refused.

An item that is not there has a line of its own. All that is come by below the others and cannot be
added has one line each, with the item and the names down to it for a label; so it is if the links
and the directories below the items nest no deeper than calls may. Below an item that is
named by a relative path the label leads where the path leads that could not be added, and so it
does in a session at the root; below any other it leads there from the current directory, but for
one name below slashes alone. -/
theorem zip_labels {s : Storage} {line archive : Text} {labels : List Text} {session : Session}
    {w : World} (hs : w.disk.Sound) (hn : labels ≠ [])
    (hc : Command.parse? (CommandLine.split line).command =
      some ⟨"zip".toList, "-r".toList :: archive :: labels⟩) :
    let place := archivePath (session.resolve archive)
    let r := Handler.dispatch (Handler.standard s)
      ⟨"zip".toList, "-r".toList :: archive :: labels⟩ session w
    ((CommandLine.split line).redirection = none → runLine s line session w = r) ∧
    match s.opensAt? w.disk place with
    | none => r = (session, { w with shown := w.shown ++ "Error: Cannot create zip file\n".toList })
    | some out =>
      let c : Setting := ⟨s, w.disk.write out [], place⟩
      ∃ missed : Path → List Loc,
        (∀ links levels : Nat, w.disk.LinksNest links →
          (∀ t ∈ labels, w.disk.NestsBelow (session.resolve t) levels) →
          levels + links ≤ s.nests →
          r.2.shown = w.shown ++ Text.unlines (labels.flatMap fun t =>
            if c.disk.pathExists (session.resolve t) then
              (missed (session.resolve t)).map fun a => Packing.failure (labelBelow t a)
            else [Packing.absence t])) ∧
        ∀ t ∈ labels, (missed (session.resolve t)).Nodup ∧
          ∀ a, (a ∈ missed (session.resolve t) ↔ Packing.MissedOf c (session.resolve t) a) ∧
            (a ∈ missed (session.resolve t) →
              let path := a.foldl Path.join (session.resolve t)
              let label := session.resolve (labelBelow t a)
              (session.InStep t a → ∀ l, c.disk.At label l ↔ c.disk.At path l) ∧
              label.names = (if session.InStep t a then [] else session.directory.names) ++
                path.names) := by
  intro place r
  refine ⟨fun hr => ?_, ?_⟩
  · unfold runLine execute
    simp only [hc, hr]
    rfl
  have hr : r = _ := Handler.dispatch_zip hn
  rcases hout : s.opensAt? w.disk place with _ | out
  · obtain ⟨e, hstop, he⟩ := run_pack_none hout (session.packItems labels) true
    rw [he] at hr
    rwa [← CommandError.report_overArchive hstop]
  obtain ⟨missed, hmissed, hshown⟩ := pack_shows hs hout
  refine ⟨missed, fun links levels hl hb hn => ?_, fun t ht =>
    ⟨(hmissed _).1, fun a => ⟨(hmissed _).2 a, fun ha => ?_⟩⟩⟩
  · have hitems : ∀ i ∈ session.packItems labels, w.disk.NestsBelow i.path levels := fun i hi => by
      obtain ⟨t, ht, rfl⟩ := List.mem_map.1 hi
      exact hb t ht
    obtain ⟨es, w', hrun, hw'⟩ := hshown (session.packItems labels) links levels hl hitems hn
    rw [hrun] at hr
    rw [hr]
    simpa [Session.packItems, List.flatMap_map] using hw'
  · have hsound := hs.write_of_locateWrite (Storage.opensAt?_eq_some hout).2 []
    have hnames := ((hmissed _).2 a).1 ha |>.isName hsound
    have hword : t ≠ [] := ((Command.isWord_of_parse? hc).2 t
      (List.mem_cons_of_mem _ (List.mem_cons_of_mem _ ht))).1
    have hlabel := session.names_resolve_labelBelow hword
      fun x hx => ⟨(hnames x hx).noSlash, (hnames x hx).plain.1⟩
    refine ⟨fun hstep l => ?_, hlabel⟩
    rw [if_pos hstep, List.nil_append] at hlabel
    exact ⟨(·.of_names hlabel.symm), (·.of_names hlabel)⟩

/-- A tree with a link at its bottom that leads nowhere. -/
def cellar : Disk where
  items := [(["w".toList], .directory), (["w".toList, "d".toList], .directory),
    (["w".toList, "d".toList, "e".toList], .directory),
    (["w".toList, "d".toList, "e".toList, "l".toList], .link "gone".toList)]

theorem sound_cellar : cellar.Sound := by
  refine Disk.sound_of_items (by decide) (by decide +kernel) fun e he t ht => ?_
  simp only [cellar, List.mem_cons, List.not_mem_nil, or_false] at he
  rcases he with rfl | rfl | rfl | rfl <;> cases ht
  decide

/-- A session in the directory above the tree. -/
def atCellar : Session := ⟨"/w".toList, "/".toList, true⟩

/-- One directory lies below the first of the items, and the other item is not there. -/
theorem nestsBelow_cellar : ∀ t ∈ ["d/".toList, "n".toList],
    cellar.NestsBelow (atCellar.resolve t) 2 := by
  intro t ht
  rcases List.mem_pair.1 ht with rfl | rfl
  · refine Disk.nestsBelow_of_at (Disk.at_of_locate (l := ["w".toList, "d".toList]) rfl)
      fun x hx => ?_
    obtain rfl : x = "e".toList := by
      revert x
      decide +kernel
    refine Disk.nestsBelow_of_at (Disk.at_of_locate (l := ["w".toList, "d".toList, "e".toList]) rfl)
      fun x hx => ?_
    obtain rfl : x = "l".toList := by
      revert x
      decide +kernel
    exact Disk.nestsBelow_of_isDir_eq_false (by decide) (by decide +kernel)
  · exact Disk.nestsBelow_of_isDir_eq_false (by decide) (by decide +kernel)

theorem zip_labels_cellar :
    let w := (runLine { chunk := 512 } "zip -r a d/ n".toList atCellar ⟨cellar, []⟩).2
    let a : Loc := ["e".toList, "l".toList]
    w.shown = ("Error: Cannot add d/e/l to zip file\n" ++
        "Warning: n does not exist, skipping\n").toList ∧
      (∃ missed : List Loc, a ∈ missed ∧ w.shown = Text.unlines
        ((missed.map fun a => Packing.failure (labelBelow "d/".toList a)) ++
          [Packing.absence "n".toList])) ∧
      labelBelow "d/".toList a = "d/e/l".toList ∧
      (atCellar.resolve (labelBelow "d/".toList a)).names =
        (a.foldl Path.join (atCellar.resolve "d/".toList)).names := by
  intro w a
  have hout : Storage.opensAt? { chunk := 512 } cellar (archivePath (atCellar.resolve "a".toList)) =
      some ["w".toList, "a.zip".toList] := by decide +kernel
  obtain ⟨hline, h⟩ := @zip_labels { chunk := 512 } "zip -r a d/ n".toList "a".toList
    ["d/".toList, "n".toList] atCellar ⟨cellar, []⟩ sound_cellar (by decide) (by decide)
  simp only [hout] at h
  obtain ⟨missed, hshown, hmissed⟩ := h
  obtain ⟨hmem, hlabel⟩ := (hmissed "d/".toList (by decide)).2 a
  have ha : a ∈ missed (atCellar.resolve "d/".toList) := by
    refine hmem.2 ?_
    rw [Packing.MissedOf, if_pos (by decide +kernel)]
    exact .child (by decide +kernel) (by decide +kernel) (by decide +kernel)
      (.child (by decide +kernel) (by decide +kernel) (by decide +kernel)
        (.self (by decide +kernel)))
  refine ⟨by decide +kernel, ⟨_, ha, ?_⟩, by decide, (hlabel ha).2⟩
  rw [← hline (by decide)] at hshown
  refine (hshown 4 2 cellar.linksNest_length nestsBelow_cellar (by decide)).trans ?_
  rw [List.flatMap_cons, List.flatMap_cons, List.flatMap_nil, List.append_nil,
    if_pos (by decide +kernel), if_neg (by decide +kernel), List.nil_append]

/-- The label of what is below an item with an absolute path leads elsewhere. -/
theorem label_astray :
    let w := (runLine { chunk := 512 } "zip -r a /w/d".toList atCellar ⟨cellar, []⟩).2
    w.shown = "Error: Cannot add w/d/e/l to zip file\n".toList ∧
      w.disk.locate false (atCellar.resolve "/w/d/e/l".toList) =
        .ok (["w", "d", "e", "l"].map String.toList) ∧
      w.disk.locate false (atCellar.resolve "w/d/e/l".toList) = .error .missing := by
  refine ⟨?_, ?_, ?_⟩ <;> decide +kernel

end FileShell
