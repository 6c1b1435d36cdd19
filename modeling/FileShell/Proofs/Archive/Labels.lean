import FileShell.Proofs.Archive.Exclusion
import FileShell.Shell.Session

/-!
# Labels of what cannot be added

What cannot be added to an archive is reported by a label that is built up on the way down, as the
path is, but with the slashes taken off at both ends of what it has so far. The two stay in step
below an item that was asked for by a relative path. Of an absolute path the first slash is lost, so
that the label reads as a path in the current directory (`Session.names_resolve_labelBelow`).
-/

namespace FileShell

open Packing (Setting)

/-- The label of what is reached from an item of this label by the names. -/
def labelBelow (label : Path) (r : Loc) : Path := r.foldl (fun l x => Entry.joinParts [l, x]) label

section

variable {t : Path} {x : Text} {r : Loc}

theorem Path.names_trim (t : Path) : names (Text.trim (· == '/') t) = names t := Text.fields_trim t

/-- Nothing is left of slashes alone, and no slash in front of anything else. -/
theorem Path.isAbsolute_trim_append (t x : Path) :
    isAbsolute (Text.trim (· == '/') t ++ '/' :: x) = true ↔ ∀ c ∈ t, c = '/' := by
  obtain ⟨a, z, ht, ha, hz⟩ := Text.exists_trim (· == '/') t
  have htrim := Text.trim_trim (· == '/') t
  rcases hu : Text.trim (· == '/') t with _ | ⟨c, u⟩ <;> rw [hu] at ht htrim
  · have hall : ∀ c ∈ t, c = '/' := by
      rw [ht, List.append_nil]
      simpa using List.forall_mem_append.2 ⟨ha, hz⟩
    simpa [isAbsolute] using hall
  · have hc : c ≠ '/' := by
      rintro rfl
      have := Text.ends_eq_nil (a := ['/']) (t := u) (z := []) (by simpa using htrim) (by simp)
        (by simp)
      simp at this
    have hmem : c ∈ t := by
      rw [ht]
      simp
    simp only [isAbsolute, List.cons_append, List.head?_cons, beq_iff_eq, Option.some.injEq]
    exact ⟨fun h => absurd h hc, fun h => h c hmem⟩

namespace Entry

theorem joinParts_pair (ht : t ≠ []) (hs : '/' ∉ x) (hx : x ≠ []) :
    joinParts [t, x] = Text.trim (· == '/') t ++ '/' :: x := by
  have htrim : Text.trim (· == '/') x = x := Text.trim_eq_self (fun e => hs (List.mem_of_head? e))
    fun e => hs (List.mem_of_getLast? e)
  simp [joinParts, ht, hx, htrim, Text.join]

end Entry

variable (hr : ∀ x ∈ r, '/' ∉ x ∧ x ≠ [])

include hr

theorem names_labelBelow (ht : t ≠ []) : (labelBelow t r).names = t.names ++ r := by
  induction r generalizing t with
  | nil => exact (List.append_nil _).symm
  | cons x r ih =>
    obtain ⟨⟨hs, hx⟩, hr⟩ := List.forall_mem_cons.1 hr
    have hjoin := Entry.joinParts_pair ht hs hx
    have hnames : Path.names (Entry.joinParts [t, x]) = t.names ++ [x] := by
      rw [hjoin, Path.names_append_slash, Path.names_trim, Path.names_of_not_mem hs hx]
    have hrest := ih hr (t := Entry.joinParts [t, x]) (by simp [hjoin])
    rw [hnames, List.append_assoc] at hrest
    exact hrest

/-- A label keeps its first slash one name below an item of slashes alone, and nowhere else. -/
theorem isAbsolute_labelBelow (ht : t ≠ []) (hn : r ≠ []) :
    (labelBelow t r).isAbsolute = true ↔ (∀ c ∈ t, c = '/') ∧ r.length = 1 := by
  induction r generalizing t with
  | nil => exact absurd rfl hn
  | cons x r ih =>
    obtain ⟨⟨hs, hx⟩, hr⟩ := List.forall_mem_cons.1 hr
    have hjoin := Entry.joinParts_pair ht hs hx
    rcases eq_or_ne r [] with rfl | hne
    · have hone : labelBelow t [x] = Text.trim (· == '/') t ++ '/' :: x := hjoin
      rw [hone, Path.isAbsolute_trim_append]
      simp
    · have hrest := ih hr (t := Entry.joinParts [t, x]) (by simp [hjoin]) hne
      obtain ⟨c, hc⟩ := List.exists_mem_of_ne_nil x hx
      have hslash : ¬ ∀ c ∈ Entry.joinParts [t, x], c = '/' := fun h =>
        hs (h c (by simp [hjoin, hc]) ▸ hc)
      have hlong : (x :: r).length ≠ 1 := by simpa using hne
      exact ⟨fun h => absurd (hrest.1 h).1 hslash, fun h => absurd h.2 hlong⟩

end

/-! ## In step -/

theorem Session.names_resolve (session : Session) (p : Path) : (session.resolve p).names =
    (if p.isAbsolute then [] else session.directory.names) ++ p.names := by
  unfold resolve
  split_ifs
  · rfl
  · exact Path.names_append_slash _ _

/-- A label leads in the session where the path leads, whatever the names below the item: the item is
named by a relative path, nothing is below it, it is made of slashes alone and one name is below it,
or the session is at the root. -/
def Session.InStep (session : Session) (item : Path) (r : Loc) : Prop :=
  item.isAbsolute = false ∨ r = [] ∨ ((∀ c ∈ item, c = '/') ∧ r.length = 1) ∨
    session.directory.names = []

instance (session : Session) (item : Path) (r : Loc) : Decidable (session.InStep item r) :=
  inferInstanceAs (Decidable (_ ∨ _ ∨ _ ∨ _))

/-- Where a label leads: along the names of the path, and before them, unless the two are in step,
along those of the current directory. -/
theorem Session.names_resolve_labelBelow (session : Session) {item : Path} {r : Loc}
    (hi : item ≠ []) (hr : ∀ x ∈ r, '/' ∉ x ∧ x ≠ []) :
    (session.resolve (labelBelow item r)).names =
      (if session.InStep item r then [] else session.directory.names) ++
        (r.foldl Path.join (session.resolve item)).names := by
  rw [session.names_resolve, names_labelBelow hr hi, Path.names_foldl_join hr,
    session.names_resolve, List.append_assoc]
  rcases eq_or_ne r [] with rfl | hn
  · rw [if_pos (show session.InStep item [] from .inr (.inl rfl))]
    rfl
  have habs := isAbsolute_labelBelow hr hi hn
  rcases hrel : item.isAbsolute with _ | _
  · have hlabel : (labelBelow item r).isAbsolute = false := by
      obtain ⟨c, t, rfl⟩ := List.exists_cons_of_ne_nil hi
      refine eq_false_of_ne_true fun h => ?_
      have hc := (habs.1 h).1 c List.mem_cons_self
      simp [Path.isAbsolute, hc] at hrel
    rw [hlabel, if_pos (show session.InStep item r from .inl hrel)]
    rfl
  · rcases hlabel : (labelBelow item r).isAbsolute with _ | _
    · have hstep : session.InStep item r ↔ session.directory.names = [] := by
        have hno := (not_congr habs).1 (by simp [hlabel])
        simp only [InStep, hrel, hn, hno, Bool.true_eq_false, false_or]
      by_cases hd : session.directory.names = []
      · simp [hd]
      · rw [if_neg (not_congr hstep |>.2 hd)]
        rfl
    · rw [if_pos (show session.InStep item r from .inr (.inr (.inl (habs.1 hlabel))))]
      rfl

/-! ## What is missed -/

namespace Writer

/-- A writer that is open and has nothing so far. -/
def fresh : Writer := ⟨[], [], false⟩

variable {w : Writer}

/-- Whether something is added depends on nothing that the writer has so far. -/
theorem addDirectory_fst (h : w.closed = false) (s : Storage) (name : Text) :
    (w.addDirectory s name).1 = (fresh.addDirectory s name).1 := by
  unfold addDirectory fresh
  rw [h]
  dsimp only
  split_ifs <;> rfl

theorem addFile_fst (h : w.closed = false) (s : Storage) (d : Disk) (source : Path) (name : Text) :
    (w.addFile s d source name).1 = (fresh.addFile s d source name).1 := by
  unfold addFile fresh
  rw [h]
  rcases d.read source with e | b <;> dsimp only <;> split_ifs <;> rfl

theorem closed_addDirectory (h : w.closed = false) (s : Storage) (name : Text) :
    (w.addDirectory s name).2.closed = false := by
  obtain ⟨ms, hms, -⟩ := w.exists_addDirectory s name
  rw [hms]
  exact h

theorem closed_addFile (h : w.closed = false) (s : Storage) (d : Disk) (source : Path)
    (name : Text) : (w.addFile s d source name).2.closed = false := by
  obtain ⟨ms, hms, -⟩ := w.exists_addFile s d source name
  rw [hms]
  exact h

end Writer

namespace Packing

variable {c : Setting} {path : Path} {name : Text} {r : Loc} {k k' k'' : Packing}

/-- The line for what cannot be added. -/
def failure (label : Text) : Text := "Error: Cannot add ".toList ++ label ++ " to zip file".toList

/-- What stands at the path is to be added under the name, and that fails. -/
def Fails (c : Setting) (path : Path) (name : Text) : Prop :=
  if c.disk.isDir path then ∃ e, (Writer.fresh.addDirectory c.storage name).1 = .error e
  else c.disk.isSame path c.archive = false ∧
    ∃ e, (Writer.fresh.addFile c.storage c.disk path name).1 = .error e

instance {ε α : Type} : (r : Except ε α) → Decidable (∃ e, r = .error e)
  | .ok _ => isFalse (by simp)
  | .error e => isTrue ⟨e, rfl⟩

instance (c : Setting) (path : Path) (name : Text) : Decidable (Fails c path name) := by
  unfold Fails
  infer_instance

/-- What is come by at the names below a path cannot be added: every directory on the way there was
added and could be listed. -/
inductive Missed (c : Setting) : Path → Text → Loc → Prop
  | self {path : Path} {name : Text} : Fails c path name → Missed c path name []
  | child {path : Path} {name x : Text} {r : Loc} : c.disk.isDir path = true →
      ¬ Fails c path name → x ∈ c.storage.namesIn c.disk path →
      Missed c (path.join x) (Entry.joinParts [name, x]) r → Missed c path name (x :: r)

theorem Missed.isName (hs : c.disk.Sound) (h : Missed c path name r) : ∀ x ∈ r, IsName x := by
  induction h with
  | self => exact List.forall_mem_nil _
  | child _ _ hx _ ih => exact List.forall_mem_cons.2 ⟨hs.isName_of_mem_namesIn hx, ih⟩

theorem missed_of_not_isDir (hd : c.disk.isDir path = false) (name : Text) (r : Loc) :
    Missed c path name r ↔ r = [] ∧ Fails c path name := by
  constructor
  · rintro (h | ⟨h, -⟩)
    · exact ⟨rfl, h⟩
    · rw [hd] at h
      cases h
  · rintro ⟨rfl, h⟩
    exact .self h

theorem missed_of_fails (h : Fails c path name) (r : Loc) : Missed c path name r ↔ r = [] := by
  constructor
  · rintro (_ | ⟨-, hno, -⟩)
    · rfl
    · exact absurd h hno
  · rintro rfl
    exact .self h

theorem missed_of_isDir (hd : c.disk.isDir path = true) (h : ¬ Fails c path name) :
    Missed c path name r ↔ ∃ x ∈ c.storage.namesIn c.disk path, ∃ q, r = x :: q ∧
      Missed c (path.join x) (Entry.joinParts [name, x]) q := by
  constructor
  · rintro (hf | ⟨-, -, hx, hq⟩)
    · exact absurd hf h
    · exact ⟨_, hx, _, rfl, hq⟩
  · rintro ⟨x, hx, q, rfl, hq⟩
    exact .child hd h hx hq

/-! ## What is shown -/

/-- Packing has gone on with an open writer, and shown the lines. -/
structure Shows (k k' : Packing) (ls : List Text) : Prop where
  opened : k'.writer.closed = false
  shown : k'.shown = k.shown ++ ls

theorem Shows.refl (hk : k.writer.closed = false) : Shows k k [] := ⟨hk, (List.append_nil _).symm⟩

theorem Shows.trans {ls ls' : List Text} (h : Shows k k' ls) (h' : Shows k' k'' ls') :
    Shows k k'' (ls ++ ls') := ⟨h'.opened, by rw [h'.shown, h.shown, List.append_assoc]⟩

theorem Shows.foldl {α : Type} {f : Packing → α → Packing} {g : α → List Text} :
    ∀ {xs : List α} {k : Packing}, k.writer.closed = false →
      (∀ x ∈ xs, ∀ k, k.writer.closed = false → Shows k (f k x) (g x)) →
      Shows k (xs.foldl f k) (xs.flatMap g)
  | [], _, hk, _ => .refl hk
  | x :: xs, k, hk, h => by
    obtain ⟨hx, hxs⟩ := List.forall_mem_cons.1 h
    have hone := hx k hk
    exact hone.trans (Shows.foldl hone.opened hxs)

theorem note_shows {a : Except ArchiveError Entry × Writer} (ha : a.2.closed = false)
    (label : Text) :
    Shows k (k.note label a) (match a.1 with | .ok _ => [] | .error _ => [failure label]) := by
  obtain ⟨e | e, w⟩ := a
  · exact ⟨ha, rfl⟩
  · exact ⟨ha, (List.append_nil _).symm⟩

theorem addDirectory_shows (hk : k.writer.closed = false) (label : Text) :
    Shows k (k.note label (k.writer.addDirectory c.storage name))
      (match (Writer.fresh.addDirectory c.storage name).1 with
        | .ok _ => []
        | .error _ => [failure label]) := by
  rw [← Writer.addDirectory_fst hk]
  exact note_shows (Writer.closed_addDirectory hk c.storage name) label

theorem addFile_shows (hk : k.writer.closed = false) (label : Text) :
    Shows k (k.note label (k.writer.addFile c.storage c.disk path name))
      (match (Writer.fresh.addFile c.storage c.disk path name).1 with
        | .ok _ => []
        | .error _ => [failure label]) := by
  rw [← Writer.addFile_fst hk]
  exact note_shows (Writer.closed_addFile hk c.storage c.disk path name) label

/-- Packing shows the label of everything that is missed below a path, once and whatever the label,
and nothing else. -/
def ShowsMissed (c : Setting) (path : Path) (name : Text) (f : Text → Packing → Packing) : Prop :=
  ∃ rs : List Loc, rs.Nodup ∧ (∀ r, r ∈ rs ↔ Missed c path name r) ∧
    ∀ label k, k.writer.closed = false →
      Shows k (f label k) (rs.map fun r => failure (labelBelow label r))

theorem addFile_showsMissed (hd : c.disk.isDir path = false) (name : Text) :
    ShowsMissed c path name (addFile c path name) := by
  have hmissed := missed_of_not_isDir hd name
  rw [Fails, if_neg (Bool.eq_false_iff.1 hd)] at hmissed
  unfold addFile
  rcases ha : c.disk.isSame path c.archive with _ | _
  · have hshows (label : Text) {k : Packing} (hk : k.writer.closed = false) :=
      @addFile_shows c path name k hk label
    rcases he : (Writer.fresh.addFile c.storage c.disk path name).1 with e | e <;>
      rw [he] at hmissed <;> simp only [he] at hshows
    · exact ⟨[[]], List.nodup_singleton _, fun r => by simp [hmissed, ha],
        fun label k hk => hshows label hk⟩
    · exact ⟨[], List.nodup_nil, fun r => by simp [hmissed], fun label k hk => hshows label hk⟩
  · exact ⟨[], List.nodup_nil, fun r => by simp [hmissed, ha], fun label k hk => .refl hk⟩

theorem see_showsMissed_of_not_isDir (hd : c.disk.isDir path = false) (depth : Nat) :
    ShowsMissed c path name (see c depth path name) := by
  have hsee : see c depth path name = addFile c path name :=
    funext₂ fun label k => see_of_not_isDir hd depth name label k
  rw [hsee]
  exact addFile_showsMissed hd name

theorem nodup_namesIn (hs : c.disk.Sound) (p : Path) : (c.storage.namesIn c.disk p).Nodup := by
  unfold Storage.namesIn
  split
  · exact List.nodup_nil
  split
  · rename_i hl
    obtain ⟨l, -, -, rfl⟩ := Disk.list_eq_ok_iff.1 hl
    exact Disk.nodup_childNames hs l
  · exact List.nodup_nil

/-- What is missed below a directory that was added is missed below what is in it. -/
theorem children_showsMissed (hs : c.disk.Sound) (hd : c.disk.isDir path = true)
    (hno : ¬ Fails c path name) {f : Text → Text → Packing → Packing}
    (h : ∀ x ∈ c.storage.namesIn c.disk path,
      ShowsMissed c (path.join x) (Entry.joinParts [name, x]) (f x)) :
    ShowsMissed c path name fun label k => (c.storage.namesIn c.disk path).foldl
      (fun k x => f x (Entry.joinParts [label, x]) k) k := by
  choose! g hnodup hmem hshows using h
  refine ⟨(c.storage.namesIn c.disk path).flatMap fun x => (g x).map (x :: ·), ?_, fun r => ?_,
    fun label k hk => ?_⟩
  · refine List.nodup_flatMap.2 ⟨fun x hx => (hnodup x hx).map (List.cons_injective), ?_⟩
    refine (nodup_namesIn hs path).imp fun hxy r hr hr' => hxy ?_
    obtain ⟨q, -, rfl⟩ := List.mem_map.1 hr
    obtain ⟨q', -, he⟩ := List.mem_map.1 hr'
    exact (List.cons.inj he).1.symm
  · rw [missed_of_isDir hd hno, List.mem_flatMap]
    refine exists_congr fun x => and_congr_right fun hx => ?_
    rw [List.mem_map]
    exact exists_congr fun q => by rw [hmem x hx, and_comm, eq_comm]
  · have hfold := Shows.foldl (f := fun k x => f x (Entry.joinParts [label, x]) k) hk
      fun x hx k hk => hshows x hx (Entry.joinParts [label, x]) k hk
    simpa [List.map_flatMap, Function.comp_def, labelBelow] using hfold

theorem addTree_of_error {e : ArchiveError}
    (h : (k.writer.addDirectory c.storage name).1 = .error e) (depth : Nat) (path : Path)
    (label : Text) : addTree c (depth + 1) path name label k =
      k.note label (k.writer.addDirectory c.storage name) := by
  rw [addTree_succ]
  generalize k.writer.addDirectory c.storage name = a at h ⊢
  obtain ⟨e | e, w⟩ := a
  · rfl
  · cases h

theorem addTree_of_ok {e : Entry} (h : (k.writer.addDirectory c.storage name).1 = .ok e)
    (depth : Nat) (path : Path) (label : Text) : addTree c (depth + 1) path name label k =
      (c.storage.namesIn c.disk path).foldl (fun k x =>
        see c depth (path.join x) (Entry.joinParts [name, x]) (Entry.joinParts [label, x]) k)
        (k.note label (k.writer.addDirectory c.storage name)) := by
  rw [addTree_succ]
  generalize k.writer.addDirectory c.storage name = a at h ⊢
  obtain ⟨e | e, w⟩ := a
  · cases h
  · rfl

/-- A place is seen to its end, if the depth is not less than its path can still grow. -/
theorem see_showsMissed (hs : c.disk.Sound) : ∀ (depth : Nat) {path : Path} (name : Text),
    Disk.maxPath < path.byteSize + depth → ShowsMissed c path name (see c depth path name) := by
  intro depth
  induction depth with
  | zero =>
    intro path name hlt
    exact see_showsMissed_of_not_isDir (Disk.isDir_of_maxPath_lt (by omega)) 0
  | succ depth ih =>
    intro path name hlt
    rcases hd : c.disk.isDir path with _ | _
    · exact see_showsMissed_of_not_isDir hd (depth + 1)
    have hadded (label : Text) {k : Packing} (hk : k.writer.closed = false) :=
      @addDirectory_shows c name k hk label
    rcases he : (Writer.fresh.addDirectory c.storage name).1 with e | e <;>
      simp only [he] at hadded
    · have hfails : Fails c path name := by
        rw [Fails, if_pos hd]
        exact ⟨e, he⟩
      refine ⟨[[]], List.nodup_singleton _, fun r => by simp [missed_of_fails hfails],
        fun label k hk => ?_⟩
      have ha := (Writer.addDirectory_fst hk c.storage name).trans he
      rw [see_of_isDir hd, addTree_of_error ha]
      exact hadded label hk
    · have hno : ¬ Fails c path name := by
        rw [Fails, if_pos hd, he]
        rintro ⟨e', ⟨⟩⟩
      obtain ⟨rs, hnodup, hmem, hshows⟩ := children_showsMissed hs hd hno (f := fun x label k =>
        see c depth (path.join x) (Entry.joinParts [name, x]) label k) fun x hx => by
          have hname := hs.isName_of_mem_namesIn hx
          have hgrow := Path.byteSize_join_lt path hname.noSlash hname.plain.1
          exact ih _ (by omega)
      refine ⟨rs, hnodup, hmem, fun label k hk => ?_⟩
      have ha := (Writer.addDirectory_fst hk c.storage name).trans he
      rw [see_of_isDir hd, addTree_of_ok ha]
      exact (hadded label hk).trans (hshows label _ (hadded label hk).opened)

/-! ## Items -/

/-- What is come by at the names below an item cannot be added. An item that is a directory goes by
the last name of its path in normal form, and a file by what follows the last slash. -/
def MissedOf (c : Setting) (path : Path) (r : Loc) : Prop :=
  if c.disk.isDir path then Missed c path (Path.baseName path.normalize) r
  else c.disk.isFile path = true ∧ Missed c path (Path.baseName path) r

theorem MissedOf.isName (hs : c.disk.Sound) (h : MissedOf c path r) : ∀ x ∈ r, IsName x := by
  unfold MissedOf at h
  split_ifs at h
  · exact h.isName hs
  · exact h.2.isName hs

/-- The line for an item that is not there. -/
def absence (label : Text) : Text := "Warning: ".toList ++ label ++ " does not exist, skipping".toList

theorem addItem_shows (hs : c.disk.Sound) (path : Path) : ∃ rs : List Loc, rs.Nodup ∧
    (∀ r, r ∈ rs ↔ MissedOf c path r) ∧ ∀ label k, k.writer.closed = false →
      Shows k (addItem c true k ⟨label, path⟩) (if c.disk.pathExists path
        then rs.map fun r => failure (labelBelow label r) else [absence label]) := by
  unfold MissedOf
  rcases hex : c.disk.pathExists path with _ | _
  · have hd : c.disk.isDir path = false := eq_false_of_ne_true fun h => by
      rw [Disk.pathExists_of_isDir h] at hex
      cases hex
    have hf : c.disk.isFile path = false := eq_false_of_ne_true fun h => by
      rw [Disk.pathExists_of_isFile h] at hex
      cases hex
    refine ⟨[], List.nodup_nil, fun r => by simp [hd, hf], fun label k hk => ?_⟩
    rw [addItem, if_pos (by simp [hex])]
    exact ⟨hk, rfl⟩
  have hitem (label : Text) (k : Packing) : addItem c true k ⟨label, path⟩ =
      if c.disk.isDir path then addTree c depth path (Path.baseName path.normalize) label k
      else if c.disk.isFile path then addFile c path (Path.baseName path) label k else k := by
    simp [addItem, hex]
  simp only [hitem, if_true]
  rcases hd : c.disk.isDir path with _ | _
  · rcases hf : c.disk.isFile path with _ | _
    · exact ⟨[], List.nodup_nil, fun r => by simp, fun label k hk => .refl hk⟩
    · have h := addFile_showsMissed hd (Path.baseName path)
      unfold ShowsMissed at h
      simpa using h
  · have hdepth : Disk.maxPath < path.byteSize + depth := by
      rw [depth]
      omega
    have h := see_showsMissed hs depth (Path.baseName path.normalize) hdepth
    unfold ShowsMissed at h
    simpa only [see_of_isDir hd, if_true] using h

end Packing

section

variable {s : Storage} {w : World} {archive : Path} {out : Loc}

theorem Writer.shown_close (writer : Writer) (w : World) : (writer.close w).2.shown = w.shown := by
  unfold close
  rcases writer.closed <;> rfl

/-- Packing shows a line for each item that is not there, and one with its label for all that is
missed below each of the others. -/
theorem pack_shows (hs : w.disk.Sound) (hout : s.opensAt? w.disk archive = some out) :
    let c : Setting := ⟨s, w.disk.write out [], archive⟩
    ∃ missed : Path → List Loc,
      (∀ p, (missed p).Nodup ∧ ∀ r, r ∈ missed p ↔ Packing.MissedOf c p r) ∧
      ∀ (items : List PackItem) (links levels : Nat), w.disk.LinksNest links →
        (∀ i ∈ items, w.disk.NestsBelow i.path levels) → levels + links ≤ s.nests →
        ∃ es w', (pack s archive items true).run w = (.ok es, w') ∧
          w'.shown = w.shown ++ Text.unlines (items.flatMap fun i =>
            if c.disk.pathExists i.path then
              (missed i.path).map fun r => Packing.failure (labelBelow i.label r)
            else [Packing.absence i.label]) := by
  intro c
  have hp := (Storage.opensAt?_eq_some hout).2
  have hsound := hs.write_of_locateWrite hp []
  choose missed hnodup hmem hshows using Packing.addItem_shows (c := c) hsound
  refine ⟨missed, fun p => ⟨hnodup p, hmem p⟩, fun items links levels hl hb hn => ?_⟩
  have hrun := run_pack_some hout (Packing.run_packItems_of_linksNest (c := c) hsound
    (Disk.not_mem_of_locate (Disk.locateWrite_eq_ok_iff.1 hp).2.1)
    (hl.of_keeps (hs.keeps_write hp []))
    (fun i hi (_ : true = true) => (hb i hi).of_keeps (hs.keeps_of_write hp [])) hn _)
  have hfold := Packing.Shows.foldl (k := ⟨⟨out, [], false⟩, [], []⟩)
    (f := Packing.addItem c true) rfl fun i (_ : i ∈ items) k hk => hshows i.path i.label k hk
  refine ⟨_, _, hrun, ?_⟩
  rw [Writer.shown_close, hfold.shown]
  rfl

end

end FileShell
