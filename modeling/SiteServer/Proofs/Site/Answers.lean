import SiteServer.Proofs.Site.RawFiles

/-!
# What requests are answered with

As long as no handler breaks down, every request has an answer.  A path with a handler is answered
by it, whatever the file tree is.  Any other path is looked up in the tree, and `Found` has one rule
for each place that it can lead to, with the answer there; `Shown` tells from an answer what has
been found.
-/

namespace SiteServer

namespace Tree

variable {tree : Tree} {path : Text} {info : Info}

/-- The metadata at a path are those of a regular file of that size. -/
def IsFile (tree : Tree) (path : Text) (size : Nat) : Prop :=
  ∃ info inode, tree.stat path = .ok info ∧ info.kind = .file inode size

/-- The metadata at a path are those of a pipe, a socket or a device. -/
def IsSpecial (tree : Tree) (path : Text) : Prop :=
  ∃ info, tree.stat path = .ok info ∧ info.kind = .special

lemma isFile_iff (hstat : tree.stat path = .ok info) (size : Nat) :
    tree.IsFile path size ↔ ∃ inode, info.kind = .file inode size := by
  simp [IsFile, hstat]

lemma isSpecial_iff (hstat : tree.stat path = .ok info) :
    tree.IsSpecial path ↔ info.kind = .special := by
  simp [IsSpecial, hstat]

lemma isDirectory_iff (hstat : tree.stat path = .ok info) :
    tree.isDirectory path = true ↔ info.kind = .directory := by
  simp [isDirectory, hstat]

/-- A directory whose metadata can be read is listed unless it may not be. -/
lemma list_of_directory (hstat : tree.stat path = .ok info) (hkind : info.kind = .directory) :
    tree.list path =
      if info.readable then .ok (tree.childNames info.location) else .error .denied := by
  simp [list, hstat, hkind]

end Tree

namespace Site

variable {H : Type} {site : Site H} {ask : H → Handler} {zone : Zone}
  {date path indexPath requested : Text} {tree : Tree} {params : List Param} {response : Response}

/-- The page that lists a directory. -/
def listed (date requested : Text) (rows : List Row) : Response :=
  { status := .ok, mediaType := .html
    body := .data (Utf8.encode (Listing.page requested rows)), date }

/-- What a path leads to, and the answer there. -/
inductive Found (zone : Zone) (tree : Tree) (date path indexPath requested : Text) :
    Response → Prop where
  | nothing {fault : Fault} (stat : tree.stat path = .error fault) :
      Found zone tree date path indexPath requested (errorPage date fault)
  | file {info : Info} {inode size : Nat} (stat : tree.stat path = .ok info)
      (kind : info.kind = .file inode size) :
      Found zone tree date path indexPath requested (served date path size)
  | special {info : Info} (stat : tree.stat path = .ok info) (kind : info.kind = .special) :
      Found zone tree date path indexPath requested (ErrorPage.forbidden date)
  /-- A directory whose index is a regular file. -/
  | index {info : Info} {size : Nat} (stat : tree.stat path = .ok info)
      (kind : info.kind = .directory) (index : tree.IsFile indexPath size) :
      Found zone tree date path indexPath requested (served date indexPath size)
  /-- A directory that shows what is in it. -/
  | listing {info : Info} {names : List Text} (stat : tree.stat path = .ok info)
      (kind : info.kind = .directory) (index : ∀ size, ¬ tree.IsFile indexPath size)
      (list : tree.list path = .ok names) :
      Found zone tree date path indexPath requested
        (listed date requested (Listing.rowsOf zone tree path names))
  /-- A directory that may not be listed. -/
  | closed {info : Info} (stat : tree.stat path = .ok info) (kind : info.kind = .directory)
      (index : ∀ size, ¬ tree.IsFile indexPath size) (list : tree.list path = .error .denied) :
      Found zone tree date path indexPath requested (ErrorPage.forbidden date)

lemma directoryAnswer_of_file {size : Nat} (h : tree.IsFile (Path.join path site.index) size) :
    site.directoryAnswer date tree path requested
      = .ok (served date (Path.join path site.index) size) := by
  obtain ⟨⟨kind, modified, readable, location⟩, inode, hstat, rfl⟩ := h
  simp [directoryAnswer, hstat]

lemma directoryAnswer_of_no_file (h : ∀ size, ¬ tree.IsFile (Path.join path site.index) size) :
    site.directoryAnswer date tree path requested =
      match Listing.rows site.zone tree path with
      | .ok rows => .ok (listed date requested rows)
      | .error .denied => .ok (ErrorPage.forbidden date)
      | .error fault => .error (.listing fault) := by
  unfold directoryAnswer
  simp only
  split
  · next inode size modified readable location hstat =>
    exact absurd ⟨_, inode, hstat, rfl⟩ (h size)
  · rfl

/-- Every path leads somewhere. -/
theorem exists_found (zone : Zone) (tree : Tree) (date path indexPath requested : Text) :
    ∃ response, Found zone tree date path indexPath requested response := by
  rcases hstat : tree.stat path with fault | info
  · exact ⟨_, .nothing hstat⟩
  · rcases hkind : info.kind with ⟨inode, size⟩ | _ | _
    · exact ⟨_, .file hstat hkind⟩
    · by_cases hindex : ∃ size, tree.IsFile indexPath size
      · obtain ⟨size, hfile⟩ := hindex
        exact ⟨_, .index hstat hkind hfile⟩
      · have hnone := not_exists.1 hindex
        have hlist := Tree.list_of_directory hstat hkind
        -- the directory can be listed or it is closed: no other fault is left
        split at hlist
        · exact ⟨_, .listing hstat hkind hnone hlist⟩
        · exact ⟨_, .closed hstat hkind hnone hlist⟩
    · exact ⟨_, .special hstat hkind⟩

/-- What a path without a handler leads to is what it is answered with. -/
theorem Found.fileAnswer_eq
    (h : Found site.zone tree date path (Path.join path site.index) requested response) :
    site.fileAnswer date tree path requested = .ok response := by
  cases h with
  | nothing stat => simp only [fileAnswer, stat]
  | file stat kind => simp only [fileAnswer, stat, kind]
  | special stat kind => simp only [fileAnswer, stat, kind]
  | index stat kind index =>
    simp only [fileAnswer, stat, kind]
    exact directoryAnswer_of_file index
  | listing stat kind index list =>
    simp only [fileAnswer, stat, kind]
    rw [directoryAnswer_of_no_file index, Listing.rows, list]
    rfl
  | closed stat kind index list =>
    simp only [fileAnswer, stat, kind]
    rw [directoryAnswer_of_no_file index, Listing.rows, list]
    rfl

/-- A path leads to one place. -/
lemma Found.unique {response' : Response}
    (h : Found site.zone tree date path (Path.join path site.index) requested response)
    (h' : Found site.zone tree date path (Path.join path site.index) requested response') :
    response = response' :=
  Except.ok.inj (h.fileAnswer_eq.symm.trans h'.fileAnswer_eq)

/-! ### What an answer tells -/

lemma errorPage_cases (date : Text) (fault : Fault) :
    fault = .denied ∧ errorPage date fault = ErrorPage.forbidden date ∨
      fault ≠ .denied ∧ errorPage date fault = ErrorPage.notFound date := by
  unfold errorPage
  split
  · next h => exact .inl ⟨h, rfl⟩
  · next h => exact .inr ⟨h, rfl⟩

lemma isDirectory_of_kind {info : Info} (hstat : tree.stat path = .ok info)
    (hkind : info.kind = .directory) : tree.isDirectory path = true :=
  (Tree.isDirectory_iff hstat).2 hkind

/-- What has been found when a file is the body. -/
lemma Found.of_file (h : Found zone tree date path indexPath requested response) {file : Text}
    {size : Nat} (hbody : response.body = .file file size) :
    response = served date file size ∧
      (file = path ∨ tree.isDirectory path = true ∧ file = indexPath) ∧ tree.IsFile file size := by
  cases h with
  | @nothing fault =>
    rcases errorPage_cases date fault with ⟨-, heq⟩ | ⟨-, heq⟩ <;> rw [heq] at hbody <;> cases hbody
  | file stat kind =>
    cases hbody
    exact ⟨rfl, .inl rfl, _, _, stat, kind⟩
  | index stat kind index =>
    cases hbody
    exact ⟨rfl, .inr ⟨isDirectory_of_kind stat kind, rfl⟩, index⟩
  | special | listing | closed => cases hbody

/-- What has been found when the answer is fine and no file. -/
lemma Found.of_listing (h : Found zone tree date path indexPath requested response) {bytes : Bytes}
    (hstatus : response.status = .ok) (hbody : response.body = .data bytes) :
    tree.isDirectory path = true ∧ (∀ size, ¬ tree.IsFile indexPath size) ∧
      ∃ names, tree.list path = .ok names := by
  cases h with
  | @nothing fault =>
    rcases errorPage_cases date fault with ⟨-, heq⟩ | ⟨-, heq⟩ <;> rw [heq] at hstatus <;>
      cases hstatus
  | listing stat kind index list => exact ⟨isDirectory_of_kind stat kind, index, _, list⟩
  | file | index => cases hbody
  | special | closed => cases hstatus

/-- What has been found when the answer is that it may not be looked at. -/
lemma Found.of_forbidden (h : Found zone tree date path indexPath requested response)
    (hstatus : response.status = .forbidden) :
    response = ErrorPage.forbidden date ∧
      (tree.stat path = .error .denied ∨ tree.IsSpecial path ∨
        tree.isDirectory path = true ∧ (∀ size, ¬ tree.IsFile indexPath size) ∧
          tree.list path = .error .denied) := by
  cases h with
  | @nothing fault stat =>
    rcases errorPage_cases date fault with ⟨rfl, heq⟩ | ⟨-, heq⟩
    · exact ⟨heq, .inl stat⟩
    · rw [heq] at hstatus
      cases hstatus
  | special stat kind => exact ⟨rfl, .inr (.inl ⟨_, stat, kind⟩)⟩
  | closed stat kind index list =>
    exact ⟨rfl, .inr (.inr ⟨isDirectory_of_kind stat kind, index, list⟩)⟩
  | file | index | listing => cases hstatus

/-- What has been found when the answer is that nothing has been. -/
lemma Found.of_notFound (h : Found zone tree date path indexPath requested response)
    (hstatus : response.status = .notFound) :
    response = ErrorPage.notFound date ∧
      ∃ fault, fault ≠ .denied ∧ tree.stat path = .error fault := by
  cases h with
  | @nothing fault stat =>
    rcases errorPage_cases date fault with ⟨-, heq⟩ | ⟨hfault, heq⟩
    · rw [heq] at hstatus
      cases hstatus
    · exact ⟨heq, fault, hfault, stat⟩
  | file | special | index | listing | closed => cases hstatus

lemma Tree.exists_of_isDirectory (h : tree.isDirectory path = true) :
    ∃ info, tree.stat path = .ok info ∧ info.kind = .directory := by
  rcases hstat : tree.stat path with fault | info
  · simp [Tree.isDirectory, hstat] at h
  · exact ⟨info, rfl, (Tree.isDirectory_iff hstat).1 h⟩

/-- What an answer says about the file tree. -/
structure Shown (zone : Zone) (tree : Tree) (date path indexPath requested : Text)
    (response : Response) : Prop where
  /-- The body is a file when this is a regular one, and is named by the path or is the index of the
  directory that the path names. -/
  file_iff : ∀ file size, response.body = .file file size ↔
    (file = path ∨ tree.isDirectory path = true ∧ file = indexPath) ∧ tree.IsFile file size
  /-- A file is sent as what it is. -/
  of_file : ∀ file size, response.body = .file file size →
    response.status = .ok ∧ response.contentLength = size ∧ response.mediaType = mediaTypeOf file
  not_special : ∀ file size, response.body = .file file size → ¬ tree.IsSpecial file
  /-- A directory is listed when its index is no regular file and it may be read. -/
  listing_iff : (response.status = .ok ∧ ∃ bytes, response.body = .data bytes) ↔
    tree.isDirectory path = true ∧ (∀ size, ¬ tree.IsFile indexPath size) ∧
      ∃ names, tree.list path = .ok names
  of_listing : ∀ names, tree.isDirectory path = true → (∀ size, ¬ tree.IsFile indexPath size) →
    tree.list path = .ok names →
      response = listed date requested (Listing.rowsOf zone tree path names)
  forbidden_iff : response.status = .forbidden ↔
    tree.stat path = .error .denied ∨ tree.IsSpecial path ∨
      tree.isDirectory path = true ∧ (∀ size, ¬ tree.IsFile indexPath size) ∧
        tree.list path = .error .denied
  of_forbidden : response.status = .forbidden → response = ErrorPage.forbidden date
  notFound_iff : response.status = .notFound ↔
    ∃ fault, fault ≠ .denied ∧ tree.stat path = .error fault
  of_notFound : response.status = .notFound → response = ErrorPage.notFound date

/-- An answer tells what has been found: to each place belongs one answer. -/
lemma Found.shown
    (h : Found site.zone tree date path (Path.join path site.index) requested response) :
    Shown site.zone tree date path (Path.join path site.index) requested response where
  file_iff file size := by
    refine ⟨fun hbody => (h.of_file hbody).2, ?_⟩
    rintro ⟨rfl | ⟨hdirectory, rfl⟩, hfile⟩
    · obtain ⟨info, inode, hstat, hkind⟩ := hfile
      rw [h.unique (.file hstat hkind)]
      rfl
    · obtain ⟨info, hstat, hkind⟩ := Tree.exists_of_isDirectory hdirectory
      rw [h.unique (.index hstat hkind hfile)]
      rfl
  of_file file size hbody := by
    rw [(h.of_file hbody).1]
    exact ⟨rfl, rfl, rfl⟩
  not_special file size hbody := by
    obtain ⟨-, -, info, inode, hstat, hkind⟩ := h.of_file hbody
    rw [Tree.isSpecial_iff hstat, hkind]
    exact Kind.noConfusion
  listing_iff := by
    refine ⟨fun ⟨hstatus, _, hbody⟩ => h.of_listing hstatus hbody, ?_⟩
    rintro ⟨hdirectory, hindex, names, hlist⟩
    obtain ⟨info, hstat, hkind⟩ := Tree.exists_of_isDirectory hdirectory
    rw [h.unique (.listing hstat hkind hindex hlist)]
    exact ⟨rfl, _, rfl⟩
  of_listing names hdirectory hindex hlist := by
    obtain ⟨info, hstat, hkind⟩ := Tree.exists_of_isDirectory hdirectory
    exact h.unique (.listing hstat hkind hindex hlist)
  forbidden_iff := by
    refine ⟨fun hstatus => (h.of_forbidden hstatus).2, ?_⟩
    rintro (hstat | ⟨info, hstat, hkind⟩ | ⟨hdirectory, hindex, hlist⟩)
    · rw [h.unique (.nothing hstat)]
      rfl
    · rw [h.unique (.special hstat hkind)]
      rfl
    · obtain ⟨info, hstat, hkind⟩ := Tree.exists_of_isDirectory hdirectory
      rw [h.unique (.closed hstat hkind hindex hlist)]
      rfl
  of_forbidden hstatus := (h.of_forbidden hstatus).1
  notFound_iff := by
    refine ⟨fun hstatus => (h.of_notFound hstatus).2, ?_⟩
    rintro ⟨fault, hfault, hstat⟩
    rw [h.unique (.nothing hstat), errorPage, if_neg hfault]
    rfl
  of_notFound hstatus := (h.of_notFound hstatus).1

/-! ### All requests -/

/-- What a handler's reply makes of an answer. -/
structure Replied (date : Text) (reply : Reply) (response : Response) : Prop where
  /-- As many bytes are sent as the handler says and has. -/
  answered : ∀ (transaction : Transaction) (data : Bytes), reply = .answered transaction data →
    let length := min (transaction.length.getD data.length) data.length
    response.status = (if transaction.found then .ok else .notFound) ∧
      response.body = .data (data.take length) ∧ response.contentLength = length ∧
      response.mediaType = transaction.mediaType
  declined : reply = .declined → response = ErrorPage.notFound date

lemma replied_handled (date : Text) (transaction : Transaction) (data : Bytes) :
    Replied date (.answered transaction data) (handled date transaction data) where
  answered := by
    rintro transaction' data' ⟨⟩
    have htake : data.take (transaction.length.getD data.length)
        = data.take (min (transaction.length.getD data.length) data.length) := by
      rw [List.take_eq_take_iff]
      omega
    refine ⟨rfl, congrArg Body.data htake, ?_, rfl⟩
    simp [handled, Response.contentLength, Body.length]
  declined := Reply.noConfusion

/-- A handler that does not break down makes the answer by itself. -/
lemma exists_replied {mount : Mount H} (hmount : site.mount? requested = some mount)
    (hreply : ask mount.handler (Target.filePath site.policy site.root requested) params
      ≠ .panicked) (date : Text) :
    ∃ response,
      Replied date (ask mount.handler (Target.filePath site.policy site.root requested) params)
        response ∧
      ∀ tree, site.answer ask date tree requested params = .ok response := by
  rcases hask : ask mount.handler (Target.filePath site.policy site.root requested) params with
    ⟨transaction, data⟩ | _ | _
  · refine ⟨_, replied_handled date transaction data, fun tree => ?_⟩
    simp only [answer, hmount, hask]
  · refine ⟨ErrorPage.notFound date, ⟨fun _ _ => Reply.noConfusion, fun _ => rfl⟩, fun tree => ?_⟩
    simp only [answer, hmount, hask]
  · exact absurd hask hreply

/-- Unless its handler breaks down every request has an answer: the one that the handler gives,
whatever the file tree is, or where there is none the one that belongs to what the tree has at its
path. -/
theorem answer_exists (site : Site H) (ask : H → Handler)
    (returns : ∀ handler path params, ask handler path params ≠ .panicked) (date : Text)
    (tree : Tree) (requested : Text) (params : List Param) :
    let path := Target.filePath site.policy site.root requested
    ∃ response, site.answer ask date tree requested params = .ok response ∧
      (∀ mount, site.mount? requested = some mount →
        Replied date (ask mount.handler path params) response ∧
          ∀ tree' : Tree, site.answer ask date tree' requested params = .ok response) ∧
      (site.mount? requested = none →
        Shown site.zone tree date path (Path.join path site.index) requested response) := by
  intro path
  rcases hmount : site.mount? requested with _ | mount
  · obtain ⟨response, hfound⟩ :=
      exists_found site.zone tree date path (Path.join path site.index) requested
    refine ⟨response, ?_, by simp, fun _ => hfound.shown⟩
    simp only [answer, hmount]
    exact hfound.fileAnswer_eq
  · obtain ⟨response, hreplied, hanswer⟩ :=
      exists_replied hmount (returns mount.handler path params) date
    refine ⟨response, hanswer tree, fun mount' heq => ?_, by simp⟩
    obtain rfl := Option.some.inj heq
    exact ⟨hreplied, hanswer⟩

/-- A directory in which a pipe has the name of the index. -/
def pipeTree : Tree where
  entries := [([], { node := .directory, modified := 0 }),
    (["index.html".toList], { node := .special, modified := 0 }),
    (["a.txt".toList], { node := .file 0, modified := 0 })]
  contents := [.ofBytes [1, 2, 3]]
  hierarchical := by decide +kernel

/-- A site with a handler for scripts. -/
def pipeSite : Site Unit where
  root := ['/']
  index := "index.html".toList
  policy := .contained
  routes := .ofMounts [⟨"php".toList, .extension "php".toList, ()⟩]
  zone := .universal

/-- The handler has three bytes to say that nothing is there, of which two are sent. -/
def pipeHandler : Unit → Handler :=
  fun _ _ _ => .answered { found := false, length := some 2 } [1, 2, 3]

lemma stat_pipeTree_root : pipeTree.stat "/".toList = .ok ⟨.directory, 0, true, []⟩ := by
  decide +kernel

lemma stat_pipeTree_index :
    pipeTree.stat "/index.html".toList = .ok ⟨.special, 0, true, ["index.html".toList]⟩ := by
  decide +kernel

theorem answer_exists_pipe :
    (∀ handler path params, pipeHandler handler path params ≠ .panicked) ∧
      pipeSite.answer pipeHandler [] pipeTree "/".toList []
        = .ok (listed [] "/".toList (Listing.rowsOf .universal pipeTree "/".toList
          ["index.html".toList, "a.txt".toList])) ∧
      pipeSite.answer pipeHandler [] pipeTree "/index.html".toList []
        = .ok (ErrorPage.forbidden []) ∧
      ∃ response, pipeSite.answer pipeHandler [] pipeTree "/a.php".toList [] = .ok response ∧
        response.status = .notFound ∧ response.body = .data [1, 2] := by
  have hreturns : ∀ handler path params, pipeHandler handler path params ≠ .panicked :=
    fun _ _ _ => Reply.noConfusion
  have hroot : Target.filePath pipeSite.policy pipeSite.root "/".toList = "/".toList := by
    decide +kernel
  have hindex : Target.filePath pipeSite.policy pipeSite.root "/index.html".toList
      = "/index.html".toList := by
    decide +kernel
  have hjoin : Path.join "/".toList pipeSite.index = "/index.html".toList := by decide +kernel
  have hunmounted : (pipeSite.mount? "/".toList).isNone ∧
      (pipeSite.mount? "/index.html".toList).isNone := by decide +kernel
  refine ⟨hreturns, ?_, ?_, ?_⟩
  · obtain ⟨response, hanswer, -, hshown⟩ :=
      answer_exists pipeSite pipeHandler hreturns [] pipeTree "/".toList []
    have hshown := hshown (Option.isNone_iff_eq_none.1 hunmounted.1)
    rw [hroot, hjoin] at hshown
    rw [hanswer, hshown.of_listing ["index.html".toList, "a.txt".toList]
      (isDirectory_of_kind stat_pipeTree_root rfl)
      (fun size => mt (Tree.isFile_iff stat_pipeTree_index size).1 (by simp))
      (by rw [Tree.list_of_directory stat_pipeTree_root rfl]; rfl)]
    rfl
  · obtain ⟨response, hanswer, -, hshown⟩ :=
      answer_exists pipeSite pipeHandler hreturns [] pipeTree "/index.html".toList []
    have hshown := hshown (Option.isNone_iff_eq_none.1 hunmounted.2)
    rw [hindex] at hshown
    have hstatus : response.status = .forbidden :=
      hshown.forbidden_iff.2 (.inr (.inl ⟨_, stat_pipeTree_index, rfl⟩))
    rw [hanswer, hshown.of_forbidden hstatus]
  · obtain ⟨response, hanswer, hmounted, -⟩ :=
      answer_exists pipeSite pipeHandler hreturns [] pipeTree "/a.php".toList []
    have hmount : (pipeSite.mount? "/a.php".toList).isSome := by decide +kernel
    obtain ⟨mount, hmount⟩ := Option.isSome_iff_exists.1 hmount
    obtain ⟨hstatus, hbody, -⟩ := (hmounted mount hmount).1.answered _ _ rfl
    exact ⟨response, hanswer, hstatus, hbody⟩

end Site

end SiteServer
