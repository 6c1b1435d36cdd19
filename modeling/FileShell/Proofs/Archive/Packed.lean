import FileShell.Proofs.Archive.Items

/-!
# What is packed whole

An item that is there, has no links and lies at no great depth is packed with all that is below it
but the archive, and nothing is reported of it (`Packable.stored_eq`).
-/

namespace FileShell

theorem Spot.path_below (v : Spot) : ∀ r : Loc, (v.below r).path = r.foldl Path.join v.path
  | [] => rfl
  | x :: r => path_below (v.down x) r

/-- If the paths of all nodes fit, all are stored and none is reported. -/
theorem Spot.filterMap_of_fits {v : Spot} {ns : List (Loc × Item)}
    (h : ∀ e ∈ ns, (v.below e.1).path.fits = true) :
    ns.filterMap v.member? = (ns.map fun e => (v.names ++ e.1, e.2)).map Member.ofNode ∧
      ns.filterMap v.miss? = [] := by
  constructor
  · rw [List.map_map, ← List.filterMap_eq_map]
    refine List.filterMap_congr fun e he => ?_
    simp [member?, h e he, names_below]
  · refine List.filterMap_eq_nil_iff.2 fun e he => ?_
    simp [miss?, h e he]

namespace Packing

variable {d : Disk} {p : Path} {l out : Loc} {i : PackItem}

/-- A path to a file or to a directory other than the root, with no link at it or below it. -/
structure Packable (d : Disk) (p : Path) (l : Loc) : Prop where
  located : d.locate true p = .ok l
  linkFree : d.LinkFree l
  kind : (d.isDirectory l = true ∧ Path.baseName p.normalize ≠ []) ∨ ∃ b, d.get? l = some (.file b)

theorem Packable.isName (h : Packable d p l) (hs : d.Sound) (ha : p.isAbsolute = true) :
    IsName (Path.baseName p.normalize) := by
  rcases h.kind with ⟨hd, hn⟩ | ⟨b, hb⟩
  · exact (Disk.Root.isName_baseName ⟨h.located, hd, h.linkFree⟩ ha).resolve_left hn
  · have hx := hs.isName_baseName h.located (by simp [Disk.isDirectory, hb])
    rwa [Path.baseName_normalize_of_isPlain ha hx.plain]

theorem Packable.stored_eq (h : Packable d i.path l) (hs : d.Sound) (ha : i.path.isAbsolute = true)
    (ho : d.isDirectory out = false)
    (hf : ∀ r, (d.get? (l ++ r)).isSome → l ++ r ≠ out → (r.foldl Path.join i.path).fits = true) :
    i.stored d out true = (d.nodes out depth l [i.base]).map Member.ofNode ∧
      i.reported d out true = [] := by
  have hbase : i.base ≠ [] := (h.isName hs ha).plain.1
  have hnodes : i.nodes d out true = d.nodes out depth l [] := by
    unfold PackItem.nodes
    rw [h.located]
    rcases h.kind with ⟨hd, -⟩ | ⟨b, hb⟩
    · simp [Disk.isDirectory_iff.1 hd]
    · simp [hb]
  have hex : d.pathExists i.path = true := by
    rw [Disk.pathExists_of_locate h.located]
    rcases h.kind with ⟨hd, -⟩ | ⟨b, hb⟩
    · simp [Disk.isDirectory_iff.1 hd]
    · simp [hb]
  have hfits : ∀ e ∈ d.nodes out depth l [], (i.spot.below e.1).path.fits = true := by
    rintro ⟨k, j⟩ he
    obtain ⟨r, -, rfl, hro, hj⟩ := (Disk.mem_nodes hs ho).1 he
    rw [Spot.path_below]
    refine hf _ ?_ hro
    rw [← Option.isSome_map (f := Item.packed), hj]
    rfl
  obtain ⟨hm, hl⟩ := Spot.filterMap_of_fits hfits
  rw [PackItem.stored, PackItem.reported, hnodes, hm, hl, hex, Disk.nodes_eq_map (a := [i.base])]
  simp [PackItem.spot, hbase]

end Packing

end FileShell
