import FileShell.Proofs.Archive.Effects
import FileShell.Proofs.Shell.Dispatch

/-!
# What lines do

What a command can do to the disk and to its session. Every command takes nothing away but `rm` and
`rmdir`, which put nothing there, and every command leaves the session where it is but `cd`
(`kind_of_mem`). So a line is a row of single changes of the disk (`only_runLine`), and makes no
link.
-/

namespace FileShell

open Disk (Gain Loss Change)

/-- The action makes changes of the kind only, and what it gives, if it succeeds, is as said. -/
structure Act.Does {ε α : Type} (S : Disk → Disk → Prop) (P : α → Prop) (m : Act ε α) : Prop where
  only : Only S m.run
  gives : ∀ {w a w'}, m.run w = (.ok a, w') → P a

namespace Act

variable {ε α β : Type} {S S' : Disk → Disk → Prop} {P : α → Prop} {Q : β → Prop}

theorem Does.mono {m : Act ε α} (hS : ∀ d d', S d d' → S' d d') (h : m.Does S P) : m.Does S' P :=
  ⟨h.only.mono hS, h.gives⟩

theorem does_pure {a : α} (h : P a) : (pure a : Act ε α).Does S P := by
  refine ⟨only_pure a, fun {w b w'} hb => ?_⟩
  cases hb
  exact h

theorem does_throw (e : ε) : (throw e : Act ε α).Does S P := by
  refine ⟨only_throw e, fun {w a w'} h => ?_⟩
  cases h

theorem does_bind {m : Act ε α} {f : α → Act ε β} (hm : Only S m.run)
    (hf : ∀ a, (f a).Does S Q) : (m >>= f).Does S Q := by
  refine ⟨only_bind hm fun a => (hf a).only, fun {w b w'} h => ?_⟩
  rw [Act.run_bind] at h
  generalize m.run w = r at h
  obtain ⟨_ | a, w₁⟩ := r
  · cases h
  · exact (hf a).gives h

theorem does_ite (c : Prop) [Decidable c] {m m' : Act ε α} (hm : m.Does S P)
    (hm' : m'.Does S P) : (if c then m else m').Does S P := by
  split_ifs
  · exact hm
  · exact hm'

end Act

/-- The sessions are in the same directory and at home in the same one. -/
def Session.SamePlace (a b : Session) : Prop := b.directory = a.directory ∧ b.home = a.home

theorem Session.SamePlace.refl (a : Session) : a.SamePlace a := ⟨rfl, rfl⟩

namespace Handler

/-- The command makes changes of the kind only, and leaves each session where it is. -/
def Does (S : Disk → Disk → Prop) (h : Handler) : Prop :=
  ∀ args session, (h.run args session).Does S session.SamePlace

variable {S : Disk → Disk → Prop} (s : Storage)

theorem does_return (session : Session) :
    (pure session : Act CommandError Session).Does S session.SamePlace :=
  Act.does_pure (.refl session)

/-! ## Commands that change nothing -/

theorem does_pwd : pwd.Does S := by
  rintro (_ | ⟨a, args⟩) session
  · exact Act.does_bind (Act.only_lift (only_showLine _)) fun _ => does_return session
  · exact Act.does_throw _

theorem does_ls : (ls s).Does S := by
  rintro (_ | ⟨a, args⟩) session
  · refine Act.does_bind (Act.only_failingWith _ (Storage.only_list s _)) fun names => ?_
    exact Act.does_bind (Act.only_forM (fun _ => Act.only_lift (only_showLine _)) _)
      fun _ => does_return session
  · exact Act.does_throw _

theorem only_isThere (p : Path) : Only S (isThere p) := only_of_disk fun _ => rfl

theorem only_showFile (session : Session) (name : Text) : Only S (showFile s session name) := by
  refine only_bind (only_isThere _) fun there => only_ite _ (only_showLine _) ?_
  refine only_bind (Storage.only_readLines s _) fun r => ?_
  exact only_bind (only_forM (fun _ => only_showLine _) _) fun _ =>
    only_ite _ (only_showLine _) (only_pure _)

theorem does_cat : (cat s).Does S := by
  intro names session
  refine Act.does_ite _ (Act.does_throw _) ?_
  exact Act.does_bind (Act.only_forM (fun _ => Act.only_lift (only_showFile s session _)) _)
    fun _ => does_return session

theorem does_wc : (wc s).Does S := by
  rintro (_ | ⟨name, _ | ⟨b, args⟩⟩) session
  · exact Act.does_throw _
  · refine Act.does_bind (Act.only_lift (only_isThere _)) fun there => ?_
    refine Act.does_ite _ (Act.does_throw _) ?_
    refine Act.does_bind (Act.only_lift (Storage.only_readLines s _)) fun r => ?_
    refine Act.does_ite _ (Act.does_throw _) ?_
    exact Act.does_bind (Act.only_lift (only_showLine _)) fun _ => does_return session
  · exact Act.does_throw _

theorem does_echo : echo.Does S := fun _ session =>
  Act.does_bind (Act.only_lift (only_showLine _)) fun _ => does_return session

/-- Leaving closes the session and leaves it where it is. -/
theorem does_exit : exit.Does S := fun _ session =>
  Act.does_bind (Act.only_lift (only_showLine _)) fun _ =>
    Act.does_pure (P := session.SamePlace) ⟨rfl, rfl⟩

/-! ## Commands that take nothing away -/

theorem does_mkdir : (mkdir s).Does Gain := by
  intro names session
  refine Act.does_ite _ (Act.does_throw _) ?_
  exact Act.does_bind (Act.only_forM (fun _ => Act.only_lift (Act.only_orShow _
    (Storage.only_makeDirs s _ _))) _) fun _ => does_return session

theorem does_touch : (touch s).Does Gain := by
  rintro (_ | ⟨name, _ | ⟨b, args⟩⟩) session
  · exact Act.does_throw _
  · exact Act.does_bind (Act.only_failingWith _ (Storage.only_create s _)) fun _ =>
      does_return session
  · exact Act.does_throw _

theorem does_cp : (cp s).Does Gain := by
  rintro (_ | ⟨a, _ | ⟨b, _ | ⟨c, args⟩⟩⟩) session
  · exact Act.does_throw _
  · exact Act.does_throw _
  · refine Act.does_bind (Act.only_lift (only_isThere _)) fun there => ?_
    refine Act.does_ite _ (Act.does_throw _) ?_
    exact Act.does_bind (Act.only_failingWith _ (Storage.only_copy s _ _)) fun _ =>
      does_return session
  · exact Act.does_throw _

theorem does_cpTree : (cpTree s).Does Gain := by
  rintro (_ | ⟨a, _ | ⟨b, _ | ⟨c, args⟩⟩⟩) session
  · exact Act.does_throw _
  · exact Act.does_throw _
  · refine Act.does_bind (Act.only_lift (Storage.only_isDir _)) fun dir => ?_
    refine Act.does_ite _ (Act.does_throw _) ?_
    refine Act.does_bind (Act.only_failingWith _ (Storage.only_makeDirs s _ _)) fun _ => ?_
    exact Act.does_bind (Act.only_adapt _ (Storage.only_copyTree s _ _)) fun _ =>
      does_return session
  · exact Act.does_throw _

theorem does_zipItems (recursive : Bool) (session : Session) (args : List Text) :
    (zipItems s recursive session args).Does Gain session.SamePlace := by
  rcases args with _ | ⟨a, _ | ⟨b, args⟩⟩
  · exact Act.does_throw _
  · exact Act.does_throw _
  · exact Act.does_bind (Act.only_adapt _ (only_pack s _ _ _)) fun _ => does_return session

theorem does_zip : (zip s).Does Gain := by
  rintro (_ | ⟨a, args⟩) session
  · exact does_zipItems s false session []
  · exact Act.does_ite _ (does_zipItems s true session args)
      (does_zipItems s false session (a :: args))

theorem does_unzip : (unzip s).Does Gain := by
  intro args session
  unfold unzip
  dsimp only
  split
  · exact Act.does_throw _
  rename_i archive destination _
  refine Act.does_bind (Act.only_lift (Storage.only_isFile _)) fun file => ?_
  refine Act.does_ite _ (Act.does_throw _) ?_
  have go (D : Path) := Act.does_bind
    (Act.only_failingWith CommandError.cannotUnpack (only_unpack s (session.resolve archive) D))
    fun _ => does_return session
  rcases destination with _ | d
  · exact Act.does_bind (Act.only_pure _) go
  · exact Act.does_bind (Act.only_failingWith _ (Storage.only_makeDirs s _ _)) fun _ =>
      Act.does_bind (Act.only_pure _) go

/-! ## Commands that put nothing there -/

theorem does_rm : (rm s).Does Loss := by
  rintro (_ | ⟨name, _ | ⟨b, args⟩⟩) session
  · exact Act.does_throw _
  · refine Act.does_bind (Act.only_lift (Storage.only_pathExists _)) fun there => ?_
    refine Act.does_ite _ (Act.does_throw _) ?_
    refine Act.does_bind (Act.only_lift (Storage.only_isDir _)) fun dir => ?_
    refine Act.does_ite _ (Act.does_throw _) ?_
    exact Act.does_bind (Act.only_failingWith _ (Storage.only_delete s _)) fun _ =>
      does_return session
  · exact Act.does_throw _

theorem only_removeIfEmpty (directory : Path) (name : Text) :
    Only Loss (removeIfEmpty s directory name) := by
  refine only_bind (Storage.only_isDir _) fun dir => only_ite _ (Act.only_orShow _ ?_)
    (only_pure _)
  exact Act.only_bind (Storage.only_list s _) fun names =>
    Act.only_ite _ (Storage.only_removeDir s _) (Act.only_pure _)

theorem only_removeAllEmpty (directory : Path) : Only Loss (removeAllEmpty s directory).run :=
  Act.only_bind (Act.only_failingWith _ (Storage.only_list s _)) fun _ =>
    Act.only_forM (fun _ => Act.only_lift (only_removeIfEmpty s directory _)) _

theorem only_removeOne (target : Path) : Only Loss (removeOne s target).run := by
  refine Act.only_bind (Act.only_lift (Storage.only_pathExists _)) fun there => ?_
  refine Act.only_ite _ (Act.only_throw _) ?_
  refine Act.only_bind (Act.only_lift (Storage.only_isDir _)) fun dir => ?_
  refine Act.only_ite _ (Act.only_throw _) ?_
  refine Act.only_bind (Act.only_failingWith _ (Storage.only_list s _)) fun names => ?_
  exact Act.only_ite _ (Act.only_throw _) (Act.only_failingWith _ (Storage.only_removeDir s _))

theorem does_rmdir : (rmdir s).Does Loss := by
  rintro (_ | ⟨name, _ | ⟨b, args⟩⟩) session
  · exact Act.does_throw _
  · exact Act.does_ite _
      (Act.does_bind (only_removeAllEmpty s _) fun _ => does_return session)
      (Act.does_bind (only_removeOne s _) fun _ => does_return session)
  · exact Act.does_throw _

/-! ## All commands -/

theorem only_cd {S : Disk → Disk → Prop} (args : List Text) (session : Session) :
    Only S ((cd s).run args session).run := by
  rcases args with _ | ⟨p, _ | ⟨q, args⟩⟩
  · exact Act.only_pure _
  · refine Act.only_ite _ ?_ ?_
    · rcases session.parent? with _ | q
      · exact Act.only_throw _
      · exact Act.only_pure _
    · refine Act.only_bind (Act.only_lift (Storage.only_isDir _)) fun dir => ?_
      refine Act.only_ite _ (Act.only_throw _) ?_
      exact Act.only_bind (Act.only_failingWith _ (Storage.only_canonicalize s _)) fun _ =>
        Act.only_pure _
  · exact Act.only_throw _

/-- Every command but `cd` leaves each session where it is, and every command but `rm` and `rmdir`
takes nothing away. -/
theorem kind_of_mem {h : Handler} (hm : h ∈ standard s) :
    h = cd s ∨ h.Does Gain ∨ (h = rm s ∨ h = rmdir s) ∧ h.Does Loss := by
  simp only [standard, List.mem_cons, List.not_mem_nil, or_false] at hm
  rcases hm with rfl | rfl | rfl | rfl | rfl | rfl | rfl | rfl | rfl | rfl | rfl | rfl | rfl | rfl |
    rfl
  · exact .inr (.inl does_pwd)
  · exact .inl rfl
  · exact .inr (.inl (does_ls s))
  · exact .inr (.inl (does_mkdir s))
  · exact .inr (.inr ⟨.inr rfl, does_rmdir s⟩)
  · exact .inr (.inl (does_touch s))
  · exact .inr (.inr ⟨.inl rfl, does_rm s⟩)
  · exact .inr (.inl (does_cp s))
  · exact .inr (.inl (does_cpTree s))
  · exact .inr (.inl (does_cat s))
  · exact .inr (.inl (does_wc s))
  · exact .inr (.inl does_echo)
  · exact .inr (.inl (does_zip s))
  · exact .inr (.inl (does_unzip s))
  · exact .inr (.inl does_exit)

theorem eq_cd_or_does {h : Handler} (hm : h ∈ standard s) : h = cd s ∨ h.Does Change := by
  rcases kind_of_mem s hm with rfl | hd | ⟨-, hd⟩
  · exact .inl rfl
  · exact .inr fun args session => (hd args session).mono fun _ _ => .inl
  · exact .inr fun args session => (hd args session).mono fun _ _ => .inr

theorem only_of_mem {h : Handler} (hm : h ∈ standard s) (args : List Text) (session : Session) :
    Only Change (h.run args session).run := by
  rcases eq_cd_or_does s hm with rfl | hd
  · exact only_cd s args session
  · exact (hd args session).only

theorem mem_of_find? {handlers : List Handler} {name : Text} {h : Handler}
    (hf : find? handlers name = some h) : h ∈ handlers ∧ h.name = name := by
  have hmem := List.mem_of_getLast? hf
  rw [List.mem_filter, beq_iff_eq] at hmem
  exact hmem

/-- A command is routed to a handler of its own name, or `cp` to `cp -r`. -/
theorem mem_of_route {handlers : List Handler} {c : Command} {h : Handler} {args : List Text}
    (hr : route handlers c = (some h, args)) : h ∈ handlers ∧
      (h.name = c.name ∨ h.name = "cp -r".toList) := by
  unfold route at hr
  split at hr
  · split_ifs at hr
    · have hf := mem_of_find? (Prod.mk.inj hr).1
      exact ⟨hf.1, .inr hf.2⟩
    · have hf := mem_of_find? (Prod.mk.inj hr).1
      exact ⟨hf.1, .inl hf.2⟩
  · have hf := mem_of_find? (Prod.mk.inj hr).1
    exact ⟨hf.1, .inl hf.2⟩

/-- A handler is given no arguments but those of the command. -/
theorem mem_args_of_route {handlers : List Handler} {c : Command} {h : Handler} {args : List Text}
    (hr : route handlers c = (some h, args)) {a : Text} (ha : a ∈ args) : a ∈ c.args := by
  unfold route at hr
  split at hr
  · rename_i x rest hargs
    rw [hargs]
    split_ifs at hr
    · exact List.mem_cons_of_mem x ((Prod.mk.inj hr).2 ▸ ha)
    · rw [hargs] at hr
      exact (Prod.mk.inj hr).2 ▸ ha
  · rw [← (Prod.mk.inj hr).2] at ha
    cases ha

theorem only_attempt (c : Command) (session : Session) :
    Only Change (attempt (standard s) c session) := by
  unfold attempt
  rcases hr : route (standard s) c with ⟨_ | h, args⟩
  · exact only_bind (only_showLine _) fun _ => only_pure _
  · refine only_bind (only_of_mem s (mem_of_route hr).1 args session) fun a => ?_
    split
    · exact only_pure _
    · exact only_pure _
    · exact only_bind (only_showLine _) fun _ => only_pure _

theorem only_dispatch (c : Command) (session : Session) :
    Only Change (dispatch (standard s) c session) :=
  only_bind (only_attempt s c session) fun _ => only_pure _

end Handler

theorem only_executeRedirected (s : Storage) (c : Command) (r : Redirection) (session : Session) :
    Only Change (executeRedirected s c r session) := by
  unfold executeRedirected
  refine only_ite _ (only_bind (only_showLine _) fun _ => only_pure _) ?_
  refine only_bind (only_capture (Handler.only_attempt s c session)) fun a => ?_
  obtain ⟨⟨session', stopped⟩, out⟩ := a
  have write : Only Change (s.write (session'.resolve r.target) out (r.mode = .append)).run :=
    (Storage.only_write s _ _ _).mono fun _ _ => .inl
  rcases stopped with _ | r
  · exact only_bind (Act.only_orShow _ write) fun _ => only_pure _
  · exact only_bind (only_pure _) fun _ => only_pure _

theorem only_execute (s : Storage) (line : Text) (session : Session) :
    Only Change (execute s line session) := by
  unfold execute
  dsimp only
  split
  · exact only_bind (only_showLine _) fun _ => only_pure _
  split
  · exact only_executeRedirected s _ _ session
  · exact Handler.only_attempt s _ session

/-- A line is a row of single changes of the disk, whatever it says, whichever calls are refused
and whether it stops or not. -/
theorem only_runLine (s : Storage) (line : Text) (session : Session) :
    Only Change (runLine s line session) :=
  only_bind (only_execute s line session) fun _ => only_pure _

end FileShell
