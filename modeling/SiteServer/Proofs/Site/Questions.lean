import SiteServer.Proofs.Site.Answers

/-!
# Questions on the way to an answer

Whatever a site knows of a request beyond its own tables it has been told: by the file tree, what is
at a path and which names are in a directory, and by a handler, what it makes of a path.
`Site.inquiry` is the course of an answer with these questions in the open; it goes on from what it
is told and has no other way to look at anything.  Put to a tree and to handlers it comes to the
answer of the site (`run_inquiry`), and `Asked` has one rule for each question that comes up on the
way (`mem_asked_iff`).
-/

namespace SiteServer

/-- Something to be told on the way to an answer. -/
inductive Question (H : Type) where
  /-- What is at the path? -/
  | stat (path : Text)
  /-- Which names are in the directory at the path? -/
  | list (path : Text)
  /-- What does the handler make of the path? -/
  | call (handler : H) (path : Text) (params : List Param)

namespace Question

variable {H : Type}

/-- The path that the question is about. -/
def path : Question H → Text
  | .stat path | .list path | .call _ path _ => path

/-- What can be told. -/
def Told : Question H → Type
  | .stat _ => Except Fault Info
  | .list _ => Except Fault (List Text)
  | .call _ _ _ => Reply

/-- What a tree and handlers tell. -/
def told (tree : Tree) (ask : H → Handler) : (question : Question H) → question.Told
  | .stat path => tree.stat path
  | .list path => tree.list path
  | .call handler path params => ask handler path params

end Question

/-- A computation that asks questions and goes on from what it is told. -/
inductive Inquiry (H α : Type) where
  | done (result : α)
  | ask (question : Question H) (next : question.Told → Inquiry H α)

namespace Inquiry

variable {H α β : Type} {tree : Tree} {ask : H → Handler}

/-- One computation after another. -/
def andThen (next : α → Inquiry H β) : Inquiry H α → Inquiry H β
  | .done result => next result
  | .ask question more => .ask question fun told => (more told).andThen next

instance : Monad (Inquiry H) where
  pure := .done
  bind inquiry next := inquiry.andThen next

def stat (path : Text) : Inquiry H (Except Fault Info) := .ask (.stat path) .done

def list (path : Text) : Inquiry H (Except Fault (List Text)) := .ask (.list path) .done

def call (handler : H) (path : Text) (params : List Param) : Inquiry H Reply :=
  .ask (.call handler path params) .done

/-- What the computation comes to. -/
def run (tree : Tree) (ask : H → Handler) : Inquiry H α → α
  | .done result => result
  | .ask question next => (next (question.told tree ask)).run tree ask

/-- The questions that come up, in their order. -/
def asked (tree : Tree) (ask : H → Handler) : Inquiry H α → List (Question H)
  | .done _ => []
  | .ask question next => question :: (next (question.told tree ask)).asked tree ask

@[simp] theorem run_pure (result : α) : (pure result : Inquiry H α).run tree ask = result := rfl

@[simp] theorem asked_pure (result : α) : (pure result : Inquiry H α).asked tree ask = [] := rfl

@[simp] theorem run_bind (inquiry : Inquiry H α) (next : α → Inquiry H β) :
    (inquiry >>= next).run tree ask = (next (inquiry.run tree ask)).run tree ask := by
  induction inquiry with
  | done result => rfl
  | ask question more ih => exact ih _

@[simp] theorem asked_bind (inquiry : Inquiry H α) (next : α → Inquiry H β) :
    (inquiry >>= next).asked tree ask
      = inquiry.asked tree ask ++ (next (inquiry.run tree ask)).asked tree ask := by
  induction inquiry with
  | done result => rfl
  | ask question more ih => exact congrArg (_ :: ·) (ih _)

@[simp] theorem run_stat (path : Text) :
    (stat path : Inquiry H _).run tree ask = tree.stat path := rfl

@[simp] theorem asked_stat (path : Text) :
    (stat path : Inquiry H _).asked tree ask = [.stat path] := rfl

@[simp] theorem run_list (path : Text) :
    (list path : Inquiry H _).run tree ask = tree.list path := rfl

@[simp] theorem asked_list (path : Text) :
    (list path : Inquiry H _).asked tree ask = [.list path] := rfl

@[simp] theorem run_call (handler : H) (path : Text) (params : List Param) :
    (call handler path params).run tree ask = ask handler path params := rfl

@[simp] theorem asked_call (handler : H) (path : Text) (params : List Param) :
    (call handler path params).asked tree ask = [.call handler path params] := rfl

end Inquiry

/-! ### The course of an answer -/

namespace Listing

variable {H : Type} {zone : Zone} {tree : Tree} {ask : H → Handler}

/-- The rows of the entries with some names, in their order. -/
def inquiry (zone : Zone) (directory : Text) : List Text → Inquiry H (List Row)
  | [] => pure []
  | name :: rest => do
    let found ← Inquiry.stat (Path.join directory name)
    let rows ← inquiry zone directory rest
    match found with
    | .ok info => pure (⟨name, zone.text info.modified, info.size?⟩ :: rows)
    | .error _ => pure rows

lemma run_inquiry (directory : Text) (names : List Text) :
    (inquiry zone directory names).run tree ask = names.filterMap (row? zone tree directory) := by
  induction names with
  | nil => rfl
  | cons name rest ih =>
    simp only [inquiry, Inquiry.run_bind, Inquiry.run_stat, ih, List.filterMap_cons, row?]
    cases tree.stat (Path.join directory name) <;> rfl

lemma asked_inquiry (directory : Text) (names : List Text) :
    (inquiry zone directory names).asked tree ask
      = names.map fun name => .stat (Path.join directory name) := by
  induction names with
  | nil => rfl
  | cons name rest ih =>
    simp only [inquiry, Inquiry.asked_bind, Inquiry.asked_stat, Inquiry.run_stat, ih,
      List.map_cons, List.singleton_append]
    cases tree.stat (Path.join directory name) <;> simp

end Listing

namespace Tree

variable {tree : Tree} {path : Text}

/-- The size of a regular file, from what is told of a path. -/
def fileSize? : Except Fault Info → Option Nat
  | .ok ⟨.file _ size, _, _, _⟩ => some size
  | _ => none

lemma fileSize?_eq_some_iff {size : Nat} :
    fileSize? (tree.stat path) = some size ↔ tree.IsFile path size := by
  rcases hstat : tree.stat path with fault | ⟨kind, modified, readable, location⟩
  · simp [fileSize?, IsFile, hstat]
  · rw [isFile_iff hstat]
    cases kind <;> simp [fileSize?]

lemma fileSize?_eq_none (h : ∀ size, ¬ tree.IsFile path size) :
    fileSize? (tree.stat path) = none :=
  Option.eq_none_iff_forall_ne_some.2 fun size => mt fileSize?_eq_some_iff.1 (h size)

end Tree

namespace Site

variable {H : Type} {site : Site H} {ask : H → Handler} {date path requested : Text}
  {tree : Tree} {params : List Param} {question : Question H} {response : Response}

/-- How the answer for a directory comes about. -/
def directoryInquiry (site : Site H) (date path requested : Text) :
    Inquiry H (Except Failure Response) := do
  let indexPath := Path.join path site.index
  match Tree.fileSize? (← Inquiry.stat indexPath) with
  | some size => pure (.ok (served date indexPath size))
  | none =>
    match ← Inquiry.list path with
    | .ok names =>
      let rows ← Listing.inquiry site.zone path (names.filter (!Listing.isHidden ·))
      pure (.ok (listed date requested
        (rows.mergeSort fun a b => Listing.precedes a.name b.name)))
    | .error .denied => pure (.ok (ErrorPage.forbidden date))
    | .error fault => pure (.error (.listing fault))

/-- How the answer for a path without a handler comes about. -/
def fileInquiry (site : Site H) (date path requested : Text) :
    Inquiry H (Except Failure Response) := do
  match ← Inquiry.stat path with
  | .error fault => pure (.ok (errorPage date fault))
  | .ok info =>
    match info.kind with
    | .file _ size => pure (.ok (served date path size))
    | .special => pure (.ok (ErrorPage.forbidden date))
    | .directory => site.directoryInquiry date path requested

/-- How the answer to a requested path with its parameters comes about. -/
def inquiry (site : Site H) (date requested : Text) (params : List Param) :
    Inquiry H (Except Failure Response) :=
  let path := Target.filePath site.policy site.root requested
  match site.mount? requested with
  | some mount => do
    match ← Inquiry.call mount.handler path params with
    | .answered transaction data => pure (.ok (handled date transaction data))
    | .declined => pure (.ok (ErrorPage.notFound date))
    | .panicked => pure (.error .panic)
  | none => site.fileInquiry date path requested

/-- What a path leads to is what asking comes to. -/
lemma Found.run_fileInquiry
    (h : Found site.zone tree date path (Path.join path site.index) requested response) :
    (site.fileInquiry date path requested).run tree ask = .ok response := by
  cases h with
  | nothing stat => simp only [fileInquiry, Inquiry.run_bind, Inquiry.run_stat, stat]; rfl
  | file stat kind => simp only [fileInquiry, Inquiry.run_bind, Inquiry.run_stat, stat, kind]; rfl
  | special stat kind =>
    simp only [fileInquiry, Inquiry.run_bind, Inquiry.run_stat, stat, kind]; rfl
  | index stat kind index =>
    simp only [fileInquiry, directoryInquiry, Inquiry.run_bind, Inquiry.run_stat, stat, kind,
      Tree.fileSize?_eq_some_iff.2 index]
    rfl
  | listing stat kind index list =>
    simp only [fileInquiry, directoryInquiry, Inquiry.run_bind, Inquiry.run_stat, stat, kind,
      Tree.fileSize?_eq_none index, Inquiry.run_list, list, Listing.run_inquiry]
    rfl
  | closed stat kind index list =>
    simp only [fileInquiry, directoryInquiry, Inquiry.run_bind, Inquiry.run_stat, stat, kind,
      Tree.fileSize?_eq_none index, Inquiry.run_list, list]
    rfl

/-- The questions lead to the answer of the site. -/
theorem run_inquiry :
    (site.inquiry date requested params).run tree ask
      = site.answer ask date tree requested params := by
  rcases hmount : site.mount? requested with _ | mount
  · obtain ⟨response, hfound⟩ := exists_found site.zone tree date
      (Target.filePath site.policy site.root requested)
      (Path.join (Target.filePath site.policy site.root requested) site.index) requested
    simp only [inquiry, answer, hmount, hfound.run_fileInquiry, hfound.fileAnswer_eq]
  · simp only [inquiry, answer, hmount, Inquiry.run_bind, Inquiry.run_call]
    cases ask mount.handler (Target.filePath site.policy site.root requested) params <;> rfl

/-! ### What is asked -/

/-- The questions about a directory: what its index is and, unless this is a file, which names are
in the directory and what each of them is that does not begin with a dot. -/
inductive AskedIn (site : Site H) (tree : Tree) (path : Text) : Question H → Prop where
  | index : AskedIn site tree path (.stat (Path.join path site.index))
  | list (no_file : ∀ size, ¬ tree.IsFile (Path.join path site.index) size) :
      AskedIn site tree path (.list path)
  | entry {names : List Text} {name : Text}
      (no_file : ∀ size, ¬ tree.IsFile (Path.join path site.index) size)
      (listed : tree.list path = .ok names) (mem : name ∈ names)
      (visible : Listing.isHidden name = false) :
      AskedIn site tree path (.stat (Path.join path name))

/-- The questions on the way to the answer to a request. -/
inductive Asked (site : Site H) (tree : Tree) (requested : Text) (params : List Param) :
    Question H → Prop where
  | call {mount : Mount H} (mounted : site.mount? requested = some mount) :
      Asked site tree requested params
        (.call mount.handler (Target.filePath site.policy site.root requested) params)
  | path (unmounted : site.mount? requested = none) :
      Asked site tree requested params (.stat (Target.filePath site.policy site.root requested))
  | inside {question : Question H} (unmounted : site.mount? requested = none)
      (directory : tree.isDirectory (Target.filePath site.policy site.root requested) = true)
      (asked : AskedIn site tree (Target.filePath site.policy site.root requested) question) :
      Asked site tree requested params question

lemma mem_asked_directoryInquiry_iff :
    question ∈ (site.directoryInquiry date path requested).asked tree ask
      ↔ AskedIn site tree path question := by
  by_cases hfile : ∃ size, tree.IsFile (Path.join path site.index) size
  · obtain ⟨size, hfile⟩ := hfile
    have hasked : (site.directoryInquiry date path requested).asked tree ask
        = [.stat (Path.join path site.index)] := by
      simp [directoryInquiry, Tree.fileSize?_eq_some_iff.2 hfile]
    rw [hasked, List.mem_singleton]
    refine ⟨fun heq => heq ▸ .index, fun h => ?_⟩
    cases h with
    | index => rfl
    | list no_file | entry no_file => exact absurd hfile (no_file size)
  · have hnone := not_exists.1 hfile
    rcases hlist : tree.list path with fault | names
    · have hasked : (site.directoryInquiry date path requested).asked tree ask
          = [.stat (Path.join path site.index), .list path] := by
        simp only [directoryInquiry, Inquiry.asked_bind, Inquiry.run_stat,
          Tree.fileSize?_eq_none hnone, Inquiry.run_list, hlist]
        cases fault <;> rfl
      rw [hasked, List.mem_pair]
      refine ⟨?_, fun h => ?_⟩
      · rintro (rfl | rfl)
        · exact .index
        · exact .list hnone
      · cases h with
        | index | list => simp
        | entry _ listed => simp [hlist] at listed
    · have hasked : (site.directoryInquiry date path requested).asked tree ask
          = [.stat (Path.join path site.index), .list path]
            ++ (names.filter (!Listing.isHidden ·)).map
              fun name => .stat (Path.join path name) := by
        simp [directoryInquiry, Tree.fileSize?_eq_none hnone, hlist, Listing.asked_inquiry]
      rw [hasked, List.mem_append, List.mem_pair, List.mem_map]
      refine ⟨?_, fun h => ?_⟩
      · rintro ((rfl | rfl) | ⟨name, hname, rfl⟩)
        · exact .index
        · exact .list hnone
        · obtain ⟨hmem, hvisible⟩ := List.mem_filter.1 hname
          exact .entry hnone hlist hmem (by simpa using hvisible)
      · cases h with
        | index | list => simp
        | @entry names' name _ listed mem visible =>
          obtain rfl : names = names' := Except.ok.inj (hlist.symm.trans listed)
          exact .inr ⟨name, List.mem_filter.2 ⟨mem, by simp [visible]⟩, rfl⟩

/-- After its own metadata nothing more is asked about a path that leads to no directory. -/
lemma asked_fileInquiry :
    (site.fileInquiry date path requested).asked tree ask = .stat path ::
      if tree.isDirectory path then (site.directoryInquiry date path requested).asked tree ask
      else [] := by
  rcases hstat : tree.stat path with fault | info
  · simp [fileInquiry, Tree.isDirectory, hstat]
  · rcases hkind : info.kind with _ | _ | _ <;>
      simp [fileInquiry, Tree.isDirectory, hstat, hkind]

/-- The rules say what is asked. -/
theorem mem_asked_iff :
    question ∈ (site.inquiry date requested params).asked tree ask
      ↔ Asked site tree requested params question := by
  rcases hmount : site.mount? requested with _ | mount
  · simp only [inquiry, hmount, asked_fileInquiry, List.mem_cons]
    constructor
    · rintro (rfl | hmem)
      · exact .path hmount
      · split at hmem
        · next hdirectory =>
          exact .inside hmount hdirectory (mem_asked_directoryInquiry_iff.1 hmem)
        · simp at hmem
    · intro h
      cases h with
      | call mounted => simp [hmount] at mounted
      | path => exact .inl rfl
      | inside _ directory asked =>
        rw [if_pos directory]
        exact .inr (mem_asked_directoryInquiry_iff.2 asked)
  · have hasked : (site.inquiry date requested params).asked tree ask
        = [.call mount.handler (Target.filePath site.policy site.root requested) params] := by
      simp only [inquiry, hmount, Inquiry.asked_bind, Inquiry.run_call]
      cases ask mount.handler (Target.filePath site.policy site.root requested) params <;> rfl
    rw [hasked, List.mem_singleton]
    refine ⟨fun heq => heq ▸ .call hmount, fun h => ?_⟩
    cases h with
    | call mounted => rw [Option.some.inj (hmount.symm.trans mounted)]
    | path unmounted | inside unmounted => simp [hmount] at unmounted

end Site

end SiteServer
