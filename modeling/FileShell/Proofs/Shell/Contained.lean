import FileShell.Proofs.Archive.Exclusion
import FileShell.Proofs.Shell.Archives
import FileShell.Proofs.Shell.Copying
import FileShell.Proofs.Shell.Follows
import FileShell.Proofs.Shell.Redirection

/-!
# Errors are contained

However a line is played, it ends, or stops, with the session and the world that running it gives
(`Play.execute_contained`). An error that a command fails with finds the session as it was: a
command that changes its session does so last. A line does not stop if there is room for the links
that nest and for the directories that lie one inside the other below what its command goes into.
Without that room for links it may, however flat the directories are (`Play.execute_chain`).
-/

namespace FileShell

variable {α : Type}

/-! ## Commands -/

/-- The deed does what the action does, and stops if that fails with a stop. The session is the one
the action gives, and as it was if the action fails. -/
def Enacts (m : Deed CommandError Unit) (a : Act CommandError Session) (session : Session)
    (w : World) : Prop :=
  m.run.run ⟨session, w⟩ = match a.run w with
    | (.ok session', w') => (.ok (.ok ()), ⟨session', w'⟩)
    | (.error e, w') => (match e.stop? with
        | some r => .error r
        | none => .ok (.error e), ⟨session, w'⟩)

namespace Enacts

variable {session session' : Session} {w : World} {a : Act CommandError Session}

theorem stay : Enacts (Pure.pure ()) (Pure.pure session) session w := rfl

theorem throw {e : CommandError} (h : e.stop? = none) :
    Enacts (throwThe CommandError e) (throwThe CommandError e) session w := by
  show _ = ((match e.stop? with
    | some r => .error r
    | none => .ok (.error e), ⟨session, w⟩) : Except Stop (Except CommandError Unit) × Scene)
  rw [h]
  rfl

theorem goTo (p : Path) : Enacts (Deed.goTo p) (Pure.pure (session.goTo p)) session w := rfl

theorem get {f : Scene → Deed CommandError Unit} (h : Enacts (f ⟨session, w⟩) a session w) :
    Enacts (MonadState.get >>= f) a session w := by
  unfold Enacts
  rw [Deed.run_bind]
  exact h

theorem bind {m : Deed CommandError α} {b : Act CommandError α} {f : α → Deed CommandError Unit}
    {g : α → Act CommandError Session} (hm : Follows m b w) (hend : b.Ends w)
    (hf : ∀ x w', b.run w = (.ok x, w') → Enacts (f x) (g x) session w') :
    Enacts (m >>= f) (b >>= g) session w := by
  unfold Enacts
  rw [Deed.run_bind, hm session, Act.run_bind]
  rcases h : b.run w with ⟨e | x, w'⟩
  · simp only [hend e w' h]
  · exact hf x w' h

theorem ite (c : Prop) [Decidable c] {m m' : Deed CommandError Unit}
    {a a' : Act CommandError Session} (h : c → Enacts m a session w)
    (h' : ¬ c → Enacts m' a' session w) :
    Enacts (if c then m else m') (if c then a else a') session w := by
  split_ifs with hc
  · exact h hc
  · exact h' hc

end Enacts

namespace Handler

variable (s : Storage)

/-- The command gives back the session it is run in. -/
def Stays (h : Handler) : Prop :=
  ∀ args session, (h.run args session).Does (fun _ _ => True) (· = session)

variable {session : Session}

theorem stays_bind {m : Act CommandError α} {f : α → Act CommandError Session}
    (hf : ∀ a, (f a).Does (fun _ _ => True) (· = session)) :
    (m >>= f).Does (fun _ _ => True) (· = session) :=
  Act.does_bind (fun _ => .single trivial) hf

theorem stays_return :
    (pure session : Act CommandError Session).Does (fun _ _ => True) (· = session) :=
  Act.does_pure rfl

theorem stays_pwd : pwd.Stays := by
  rintro (_ | ⟨a, args⟩) session
  · exact stays_bind fun _ => stays_return
  · exact Act.does_throw _

theorem stays_ls : (ls s).Stays := by
  rintro (_ | ⟨a, args⟩) session
  · exact stays_bind fun _ => stays_bind fun _ => stays_return
  · exact Act.does_throw _

theorem stays_mkdir : (mkdir s).Stays := fun _ _ =>
  Act.does_ite _ (Act.does_throw _) (stays_bind fun _ => stays_return)

theorem stays_rmdir : (rmdir s).Stays := by
  rintro (_ | ⟨name, _ | ⟨b, args⟩⟩) session
  · exact Act.does_throw _
  · exact Act.does_ite _ (stays_bind fun _ => stays_return) (stays_bind fun _ => stays_return)
  · exact Act.does_throw _

theorem stays_touch : (touch s).Stays := by
  rintro (_ | ⟨name, _ | ⟨b, args⟩⟩) session
  · exact Act.does_throw _
  · exact stays_bind fun _ => stays_return
  · exact Act.does_throw _

theorem stays_rm : (rm s).Stays := by
  rintro (_ | ⟨name, _ | ⟨b, args⟩⟩) session
  · exact Act.does_throw _
  · refine stays_bind fun there => Act.does_ite _ (Act.does_throw _) ?_
    refine stays_bind fun dir => Act.does_ite _ (Act.does_throw _) ?_
    exact stays_bind fun _ => stays_return
  · exact Act.does_throw _

theorem stays_cp : (cp s).Stays := by
  rintro (_ | ⟨a, _ | ⟨b, _ | ⟨c, args⟩⟩⟩) session
  · exact Act.does_throw _
  · exact Act.does_throw _
  · refine stays_bind fun there => Act.does_ite _ (Act.does_throw _) ?_
    exact stays_bind fun _ => stays_return
  · exact Act.does_throw _

theorem stays_cat : (cat s).Stays := fun _ _ =>
  Act.does_ite _ (Act.does_throw _) (stays_bind fun _ => stays_return)

theorem stays_wc : (wc s).Stays := by
  rintro (_ | ⟨name, _ | ⟨b, args⟩⟩) session
  · exact Act.does_throw _
  · refine stays_bind fun there => Act.does_ite _ (Act.does_throw _) ?_
    refine stays_bind fun r => Act.does_ite _ (Act.does_throw _) ?_
    exact stays_bind fun _ => stays_return
  · exact Act.does_throw _

theorem stays_echo : echo.Stays := fun _ _ => stays_bind fun _ => stays_return

theorem stays_cpTree : (cpTree s).Stays := by
  rintro (_ | ⟨a, _ | ⟨b, _ | ⟨c, args⟩⟩⟩) session
  · exact Act.does_throw _
  · exact Act.does_throw _
  · refine stays_bind fun dir => Act.does_ite _ (Act.does_throw _) ?_
    exact stays_bind fun _ => stays_bind fun _ => stays_return
  · exact Act.does_throw _

theorem stays_zipItems (recursive : Bool) (session : Session) (args : List Text) :
    (zipItems s recursive session args).Does (fun _ _ => True) (· = session) := by
  rcases args with _ | ⟨a, _ | ⟨b, args⟩⟩
  · exact Act.does_throw _
  · exact Act.does_throw _
  · exact stays_bind fun _ => stays_return

theorem stays_zip : (zip s).Stays := by
  rintro (_ | ⟨a, args⟩) session
  · exact stays_zipItems s false session []
  · exact Act.does_ite _ (stays_zipItems s true session args)
      (stays_zipItems s false session (a :: args))

end Handler

namespace Deed

variable (s : Storage) {session : Session} {w : World}

theorem enacts_plain {h : Handler} (hstays : h.Stays) (args : List Text) :
    Enacts (plain h args) (h.run args session) session w := by
  unfold Enacts plain
  rw [run_bind]
  show ((ofAct (liftM (h.run args session).run) >>= _).run.run ⟨session, w⟩) = _
  rw [run_bind, Follows.ofAct _ session]
  simp only [Act.run_lift]
  rcases hrun : (h.run args session).run w with ⟨e | session', w'⟩
  · cases e <;> rfl
  · obtain rfl := (hstays args session).gives hrun
    rfl

theorem enacts_cd (args : List Text) :
    Enacts (cd s args) ((Handler.cd s).run args session) session w := by
  rcases args with _ | ⟨p, _ | ⟨q, args⟩⟩
  · exact .get (.goTo _)
  · refine .get (.ite _ (fun _ => ?_) fun _ => ?_)
    · dsimp only
      rcases session.parent? with _ | parent
      · exact .throw rfl
      · exact .goTo parent
    · refine .bind (.ofAct _) (.lift _) fun dir w' _ => .ite _ (fun _ => .throw rfl) fun _ => ?_
      exact .bind (.ofAct _) (.failingWith rfl) fun q w' _ => .goTo q
  · exact .throw rfl

theorem enacts_exit (args : List Text) :
    Enacts (exit args) (Handler.exit.run args session) session w :=
  .bind (.ofAct _) (.lift _) fun _ _ _ => rfl

theorem enacts_unzip (ha : session.directory.isAbsolute = true) (args : List Text) :
    Enacts (unzip s args) ((Handler.unzip s).run args session) session w := by
  unfold unzip Handler.unzip
  dsimp only
  rcases Handler.unzipArgs args with u | ⟨archive, _ | d⟩
  · exact .throw rfl
  · refine .get (.bind (.ofAct _) (.lift _) fun file v _ =>
      .ite _ (fun _ => .throw rfl) fun _ => ?_)
    refine .bind (.pure _) (.pure _) fun destination w' hd => ?_
    obtain rfl : session.directory = destination := Except.ok.inj (Prod.mk.inj hd).1
    exact .bind ((follows_unpack s _ ha _).failingWith _) (.failingWith rfl) fun _ _ _ => .stay
  · refine .get (.bind (.ofAct _) (.lift _) fun file v _ =>
      .ite _ (fun _ => .throw rfl) fun _ => ?_)
    refine .bind (.ofAct _) (.failingWith rfl) fun _ w' _ => ?_
    refine .bind (.pure _) (.pure _) fun destination w' hd => ?_
    obtain rfl : session.resolve d = destination := Except.ok.inj (Prod.mk.inj hd).1
    exact .bind ((follows_unpack s _ (session.isAbsolute_resolve ha d) _).failingWith _)
      (.failingWith rfl) fun _ _ _ => .stay

/-- Each handler is enacted, in every session in an absolute directory. -/
theorem enacts_ofHandler {h : Handler} (hm : h ∈ Handler.standard s)
    (ha : session.directory.isAbsolute = true) (args : List Text) :
    Enacts (ofHandler s h args) (h.run args session) session w := by
  simp only [Handler.standard, List.mem_cons, List.not_mem_nil, or_false] at hm
  rcases hm with rfl | rfl | rfl | rfl | rfl | rfl | rfl | rfl | rfl | rfl | rfl | rfl | rfl | rfl |
    rfl
  · exact enacts_plain Handler.stays_pwd args
  · exact enacts_cd s args
  · exact enacts_plain (Handler.stays_ls s) args
  · exact enacts_plain (Handler.stays_mkdir s) args
  · exact enacts_plain (Handler.stays_rmdir s) args
  · exact enacts_plain (Handler.stays_touch s) args
  · exact enacts_plain (Handler.stays_rm s) args
  · exact enacts_plain (Handler.stays_cp s) args
  · exact enacts_plain (Handler.stays_cpTree s) args
  · exact enacts_plain (Handler.stays_cat s) args
  · exact enacts_plain (Handler.stays_wc s) args
  · exact enacts_plain Handler.stays_echo args
  · exact enacts_plain (Handler.stays_zip s) args
  · exact enacts_unzip s ha args
  · exact enacts_exit args

end Deed

/-! ## Commands that go into directories -/

/-- The place of a copy has no null character if neither path has one. -/
theorem Storage.not_mem_copyPath {S D : Path} (ha : S.isAbsolute = true) (hS : '\x00' ∉ S)
    (hD : '\x00' ∉ D) : '\x00' ∉ copyPath S D := by
  have hbase : '\x00' ∉ Path.baseName S.normalize ∧ '/' ∉ Path.baseName S.normalize := by
    rw [Path.baseName_normalize ha]
    rcases List.eq_nil_or_concat (Path.normalNames S) with hn | ⟨a, x, hn⟩
    · simp [hn]
    · rw [hn, List.concat_eq_append, List.getLastD_concat]
      obtain ⟨hx, -, -⟩ := Path.mem_normalNames (p := S) (x := x) (by simp [hn])
      exact ⟨fun h => hS (Path.mem_of_mem_names hx h), Path.not_mem_of_mem_names hx⟩
  exact Path.not_mem_join hbase.2 hD hbase.1 (by decide)

/-- Directories that were made have a path without a null character. -/
theorem Storage.not_mem_of_makeDirs {s : Storage} {p : Path} {w w' : World}
    (h : (s.makeDirs p true).run w = (.ok (), w')) : '\x00' ∉ p := by
  obtain ⟨e, -, he⟩ | hrun := s.run_makeDirs_or p true w
  · rw [he] at h
    cases h
  · rw [hrun] at h
    refine Disk.not_mem_of_makeDirs true w.disk p (.inl ?_)
    rcases hmade : (w.disk.makeDirs true p).1 with e | ⟨⟩
    · rw [hmade] at h
      cases h
    · rfl

namespace Handler

variable {s : Storage} {session : Session} {w : World} {links levels : Nat}

theorem ends_cpTree (hs : w.disk.Sound) (ha : session.directory.isAbsolute = true)
    (hl : w.disk.LinksNest links) (hn : levels + links ≤ s.nests) {args : List Text}
    (hb : ∀ a ∈ args, (((cpTree s).run args session).run w).2.disk.NestsBelow (session.resolve a)
      levels) : ((cpTree s).run args session).Ends w := by
  rcases args with _ | ⟨a, _ | ⟨b, _ | ⟨c, args⟩⟩⟩
  · exact .throw rfl
  · exact .throw rfl
  · have hbelow := hb a List.mem_cons_self
    intro e v hrun
    rw [run_cpTree] at hrun hbelow
    split_ifs at hrun hbelow with hdir
    swap
    · cases hrun
      rfl
    have hgains := Storage.only_makeDirs s (session.resolve b) true w
    rcases hmade : (s.makeDirs (session.resolve b) true).run w with ⟨e' | ⟨⟩, w₁⟩ <;>
      rw [hmade] at hrun hbelow hgains
    · cases hrun
      rfl
    have hk := hs.keeps_of_gains hgains
    have hnull := Storage.not_mem_copyPath (session.isAbsolute_resolve ha a)
      (Disk.not_mem_of_isDir hdir) (Storage.not_mem_of_makeDirs hmade)
    have hends := fun hbelow => Storage.copyTree_ne_stopped (s := s) (S := session.resolve a)
      (D := session.resolve b) (hs.of_gains hgains) (hl.of_keeps hk) hnull
      (Disk.isDir_of_keeps hk hdir) hbelow hn
    rcases hcopy : (s.copyTree (session.resolve a) (session.resolve b)).run w₁ with ⟨e' | T, w₂⟩ <;>
      rw [hcopy] at hends <;> simp only [hcopy] at hrun hbelow
    · cases e' with
      | stopped r => exact absurd rfl (hends hbelow r)
      | _ =>
        cases hrun
        rfl
    · cases hrun
  · exact .throw rfl

theorem ends_zipItems (hs : w.disk.Sound) (hl : w.disk.LinksNest links)
    (hn : levels + links ≤ s.nests) {recursive : Bool} {args : List Text}
    (hb : ∀ a ∈ args, ((zipItems s recursive session args).run w).2.disk.NestsBelow
      (session.resolve a) levels) : (zipItems s recursive session args).Ends w := by
  rcases args with _ | ⟨archive, _ | ⟨a, args⟩⟩
  · exact .throw rfl
  · exact .throw rfl
  · have hends (hb : ∀ i ∈ session.packItems (a :: args), recursive = true →
        Disk.NestsBelow ((pack s (archivePath (session.resolve archive))
          (session.packItems (a :: args)) recursive).run w).2.disk i.path levels) :=
      pack_ne_stopped hs hl hb hn
    intro e v hrun
    rw [run_zipItems] at hrun hb
    rcases hpack : (pack s (archivePath (session.resolve archive)) (session.packItems (a :: args))
      recursive).run w with ⟨e' | es, v'⟩ <;> rw [hpack] at hrun hb hends
    · cases e' with
      | stopped r =>
        refine absurd rfl (hends (fun i hi _ => ?_) r)
        obtain ⟨x, hx, rfl⟩ := List.mem_map.1 hi
        exact hb x (List.mem_cons_of_mem _ hx)
      | _ =>
        cases hrun
        rfl
    · cases hrun

theorem ends_zip (hs : w.disk.Sound) (hl : w.disk.LinksNest links) (hn : levels + links ≤ s.nests)
    {args : List Text} (hb : ∀ a ∈ args,
      (((zip s).run args session).run w).2.disk.NestsBelow (session.resolve a) levels) :
    ((zip s).run args session).Ends w := by
  rcases args with _ | ⟨a, args⟩
  · exact .throw rfl
  · unfold zip at hb ⊢
    dsimp only at hb ⊢
    split_ifs at hb ⊢
    · exact ends_zipItems hs hl hn fun x hx => hb x (List.mem_cons_of_mem a hx)
    · exact ends_zipItems hs hl hn hb

/-- A command does not stop if there is room for the links that nest, and for the directories that
lie one inside the other below its arguments once it is over. -/
theorem stopped_attempt (hs : w.disk.Sound) (ha : session.directory.isAbsolute = true)
    (hl : w.disk.LinksNest links) (hn : levels + links ≤ s.nests) {c : Command}
    (hb : ∀ a ∈ c.args, (attempt (standard s) c session w).2.disk.NestsBelow (session.resolve a)
      levels) : (attempt (standard s) c session w).1.2 = none := by
  rcases hr : route (standard s) c with ⟨_ | h, args⟩
  · unfold attempt
    rw [hr]
    rfl
  have hdisk : (attempt (standard s) c session w).2.disk = ((h.run args session).run w).2.disk :=
    disk_dispatch_some hr
  have hargs : ∀ a ∈ args, a ∈ c.args := fun a => mem_args_of_route hr
  rw [hdisk] at hb
  have hends : (h.run args session).Ends w := by
    rcases tree_or_zip_or_ends (mem_of_route hr).1 with rfl | rfl | hends
    · exact ends_cpTree hs ha hl hn fun a h => hb a (hargs a h)
    · exact ends_zip hs hl hn fun a h => hb a (hargs a h)
    · exact hends args session w
  rw [run_attempt hr]
  rcases hrun : (h.run args session).run w with ⟨e | session', w'⟩
  · exact hends e w' hrun
  · rfl

end Handler

/-! ## Lines -/

namespace Play

variable (s : Storage) {session : Session} {w : World}

/-- What a play gives that has come to its end, or that was stopped. -/
def endsWith (a : α) : Option Stop → Except Stop α
  | none => .ok a
  | some r => .error r

theorem run_capture (m : Play Unit) : (capture m).run ⟨session, w⟩ =
    let (r, σ) := m.run ⟨session, ⟨w.disk, []⟩⟩
    (r.map fun _ => σ.world.shown, ⟨σ.session, ⟨σ.world.disk, w.shown⟩⟩) := rfl

theorem run_dispatch (c : Command) (ha : session.directory.isAbsolute = true) :
    (dispatch s c).run ⟨session, w⟩ =
      let r := Handler.attempt (Handler.standard s) c session w
      (endsWith () r.1.2, ⟨r.1.1, r.2⟩) := by
  rcases hr : Handler.route (Handler.standard s) c with ⟨_ | h, args⟩
  · unfold dispatch Handler.attempt
    rw [hr]
    rfl
  · have henacts := Deed.enacts_ofHandler s (w := w) (Handler.mem_of_route hr).1 ha args
    rw [Handler.run_attempt hr]
    unfold dispatch
    rw [hr]
    dsimp only
    rw [run_bind]
    unfold Enacts at henacts
    rw [henacts]
    rcases (h.run args session).run w with ⟨e | session', w'⟩
    · rcases hstop : e.stop? with _ | r
      · simp only [hstop]
        rw [CommandError.report_of_stop?_eq_none hstop, ← List.append_assoc]
        rfl
      · obtain rfl : e = .stopped r := CommandError.eq_stopped_of_stop? hstop
        simp only [hstop, CommandError.report, List.append_nil]
        rfl
    · rfl

theorem run_executeRedirected (c : Command) (r : Redirection)
    (ha : session.directory.isAbsolute = true) :
    (executeRedirected s c r).run ⟨session, w⟩ =
      let r := FileShell.executeRedirected s c r session w
      (endsWith () r.1.2, ⟨r.1.1, r.2⟩) := by
  obtain ⟨m, p⟩ := r
  rcases eq_or_ne p [] with rfl | hp
  · rfl
  have he : p.isEmpty = false := by simpa using hp
  have hrun := run_dispatch s c (w := ⟨w.disk, []⟩) ha
  unfold executeRedirected
  simp only [he, Bool.false_eq_true, if_false]
  rw [run_bind, run_capture, hrun]
  rcases hattempt : Handler.attempt (Handler.standard s) c session ⟨w.disk, []⟩ with
    ⟨⟨after, _ | stop⟩, alone⟩
  · rw [FileShell.run_executeRedirected hp hattempt]
    rfl
  · rw [run_executeRedirected_stopped hp hattempt]
    rfl

theorem run_execute (line : Text) (ha : session.directory.isAbsolute = true) :
    (execute s line).run ⟨session, w⟩ =
      let r := FileShell.execute s line session w
      (endsWith r.1.1.active r.1.2, ⟨r.1.1, r.2⟩) := by
  unfold execute FileShell.execute
  dsimp only
  rcases Command.parse? (CommandLine.split line).command with _ | c
  · rfl
  rcases (CommandLine.split line).redirection with _ | r
  · dsimp only
    rw [run_bind, run_dispatch s c ha]
    rcases Handler.attempt (Handler.standard s) c session w with ⟨⟨after, _ | stop⟩, w'⟩ <;> rfl
  · dsimp only
    rw [run_bind, run_executeRedirected s c r ha]
    rcases FileShell.executeRedirected s c r session w with ⟨⟨after, _ | stop⟩, w'⟩ <;> rfl

/-- Where the command of a line starts: nothing is shown yet if the line redirects. -/
def onset (line : Text) (session : Session) (w : World) : Scene :=
  ⟨session, if (CommandLine.split line).redirection.isSome then ⟨w.disk, []⟩ else w⟩

/-- A line does not stop if there is room for the links that nest, and for the directories that lie
one inside the other below the words of its command once it is over. -/
theorem stopped_execute {links levels : Nat} (line : Text) (hs : w.disk.Sound)
    (ha : session.directory.isAbsolute = true) (hl : w.disk.LinksNest links)
    (hn : levels + links ≤ s.nests)
    (hb : ∀ c, Command.parse? (CommandLine.split line).command = some c → ∀ a ∈ c.args,
      (FileShell.execute s line session w).2.disk.NestsBelow (session.resolve a) levels) :
    (FileShell.execute s line session w).1.2 = none := by
  unfold FileShell.execute at hb ⊢
  rcases hc : Command.parse? (CommandLine.split line).command with _ | c
  · rfl
  replace hb := hb c hc
  rw [hc] at hb
  rcases hredir : (CommandLine.split line).redirection with _ | ⟨m, p⟩ <;> rw [hredir] at hb
  · exact Handler.stopped_attempt hs ha hl hn hb
  dsimp only at hb ⊢
  rcases eq_or_ne p [] with rfl | hp
  · rw [executeRedirected_nil]
  rcases hattempt : Handler.attempt (Handler.standard s) c session ⟨w.disk, []⟩ with
    ⟨⟨after, _ | stop⟩, alone⟩
  · rw [FileShell.run_executeRedirected hp hattempt]
  · rw [run_executeRedirected_stopped hp hattempt] at hb ⊢
    have hnone := Handler.stopped_attempt (s := s) (w := ⟨w.disk, []⟩) hs ha hl hn (c := c)
      (by rwa [hattempt])
    rwa [hattempt] at hnone

/-- However a line is played, it ends or stops as running it does, with the session and the world
that this gives, and if it ends, it says whether the session is active. It ends if there is room for
the links that nest, and for the directories that lie one inside the other below the words of its
command once it is over. If the line's command fails with an error, the session is what it was, then
and at the end of the line. -/
theorem execute_contained (line : Text) (hs : w.disk.Sound)
    (ha : session.directory.isAbsolute = true) :
    let r := FileShell.execute s line session w
    (execute s line).run ⟨session, w⟩ = (endsWith r.1.1.active r.1.2, ⟨r.1.1, r.2⟩) ∧
    (∀ links levels, w.disk.LinksNest links → levels + links ≤ s.nests →
      (∀ c, Command.parse? (CommandLine.split line).command = some c →
        ∀ a ∈ c.args, r.2.disk.NestsBelow (session.resolve a) levels) →
      ((execute s line).run ⟨session, w⟩).1 = .ok r.1.1.active) ∧
    ∀ c h args e σ, Command.parse? (CommandLine.split line).command = some c →
      Handler.route (Handler.standard s) c = (some h, args) →
      (Deed.ofHandler s h args).run.run (onset line session w) = (.ok (.error e), σ) →
      σ.session = session ∧ ((execute s line).run ⟨session, w⟩).2.session = session := by
  refine ⟨run_execute s line ha, fun links levels hl hn hb => ?_, fun c h args e σ hc hr hrun => ?_⟩
  · have hnone := stopped_execute s line hs ha hl hn hb
    rw [run_execute s line ha]
    dsimp only
    rw [hnone]
    rfl
  have failed {v : World}
      (hrun : (Deed.ofHandler s h args).run.run ⟨session, v⟩ = (.ok (.error e), σ)) :
      σ.session = session ∧
        (Handler.attempt (Handler.standard s) c session v).1.1 = session := by
    have henacts := Deed.enacts_ofHandler s (w := v) (Handler.mem_of_route hr).1 ha args
    unfold Enacts at henacts
    rw [hrun] at henacts
    rw [Handler.run_attempt hr]
    generalize (h.run args session).run v = r at henacts
    obtain ⟨e' | session', v'⟩ := r
    · exact ⟨congrArg (·.2.session) henacts, rfl⟩
    · cases henacts
  rw [run_execute s line ha]
  unfold onset at hrun
  unfold FileShell.execute
  dsimp only
  rw [hc]
  rcases hredir : (CommandLine.split line).redirection with _ | ⟨m, p⟩
  · rw [hredir] at hrun
    exact failed hrun
  · rw [hredir] at hrun
    obtain ⟨hσ, hsession⟩ := failed hrun
    refine ⟨hσ, ?_⟩
    dsimp only
    rcases eq_or_ne p [] with rfl | hp
    · rw [executeRedirected_nil]
    · rwa [fst_executeRedirected hp]

/-- A directory with a link that leads back to itself. -/
def ring : Disk where
  items := [(["w".toList], .directory), (["w".toList, "l".toList], .link "l".toList)]

theorem sound_ring : ring.Sound := by
  refine Disk.sound_of_items (by decide) (by decide +kernel) fun e he t ht => ?_
  simp only [ring, List.mem_cons, List.not_mem_nil, or_false] at he
  rcases he with rfl | rfl <;> cases ht
  decide

/-- Going to a link that leads nowhere fails, and the error is written where the line says. A copy
of directories in one another comes to its end. -/
theorem execute_contained_ring :
    let session : Session := ⟨"/w".toList, "/".toList, true⟩
    let root : Session := ⟨"/".toList, "/".toList, true⟩
    let line := "cd l > f".toList
    let s : Storage := { chunk := 512 }
    ring.Sound ∧ session.directory.isAbsolute = true ∧
      ((Deed.ofHandler s (Handler.cd s) ["l".toList]).run.run (onset line session ⟨ring, []⟩)).1 =
        .ok (.error .noDirectory) ∧
      ((execute s line).run ⟨session, ⟨ring, []⟩⟩).1 = .ok true ∧
      ((execute s line).run ⟨session, ⟨ring, []⟩⟩).2.session = session ∧
      ((execute s line).run ⟨session, ⟨ring, []⟩⟩).2.world.disk.get? ["w".toList, "f".toList] =
        some (.file (Utf8.encode "Error: Directory does not exist\n".toList)) ∧
      ((execute s "cp -r s d".toList).run ⟨root, ⟨burrow, []⟩⟩).1 = .ok true := by
  intro session root line s
  have ha : session.directory.isAbsolute = true := by decide
  obtain ⟨hrun, -, hfail⟩ := execute_contained s (w := ⟨ring, []⟩) line sound_ring ha
  have herror : ((Deed.ofHandler s (Handler.cd s) ["l".toList]).run.run
      (onset line session ⟨ring, []⟩)).1 = .ok (.error .noDirectory) := by rfl
  have hsession := hfail ⟨"cd".toList, ["l".toList]⟩ (Handler.cd s) ["l".toList] .noDirectory
    ((Deed.ofHandler s (Handler.cd s) ["l".toList]).run.run (onset line session ⟨ring, []⟩)).2
    (by decide) (by rfl) (Prod.ext herror rfl)
  refine ⟨sound_ring, ha, herror, ?_, hsession.2, ?_, ?_⟩
  · rw [hrun]
    decide +kernel
  · rw [hrun]
    decide +kernel
  · have hburrow : burrow.Sound :=
      Disk.sound_of_items (by decide) (by decide) (by simp [burrow])
    obtain ⟨-, hend, -⟩ := execute_contained s (w := ⟨burrow, []⟩) "cp -r s d".toList hburrow
      (show root.directory.isAbsolute = true by decide)
    have hdisk : (FileShell.execute s "cp -r s d".toList root ⟨burrow, []⟩).2.disk =
        ⟨(["d".toList, "s".toList, "t".toList], .directory) ::
          (["d".toList, "s".toList], .directory) :: burrow.items⟩ := by decide +kernel
    have hactive : (FileShell.execute s "cp -r s d".toList root ⟨burrow, []⟩).1.1.active =
        true := by decide +kernel
    rw [hdisk, hactive] at hend
    refine hend burrow.items.length 4 burrow.linksNest_length (by decide) fun c _ a _ => ?_
    refine Disk.nestsBelow_of_items (fun k t _ => Disk.get?_ne_link_of_items ?_ k t) (by decide)
      (by decide) _
    simp [burrow]

/-- A copy of one directory with no other in it. To ask whether the link in it is where the copy
goes takes more calls than may nest, so the line stops, and says nothing. -/
theorem execute_chain :
    let session : Session := ⟨"/".toList, "/".toList, true⟩
    let r := (execute { chunk := 512, nests := 1 } "cp -r s d".toList).run
      ⟨session, ⟨chain 40, []⟩⟩
    (chain 40).childNames ["s".toList] = ["l".toList] ∧
      (chain 40).isDir "/s/l".toList = false ∧
      r.1 = .error .recursion ∧ r.2.world.shown = [] := by
  refine ⟨by decide +kernel, by decide +kernel, ?_, ?_⟩ <;> decide +kernel

end Play

end FileShell
