import SiteServer.Proofs.Connection.Alone
import SiteServer.Proofs.Site.Answers

/-!
# Files that may not be opened

Whether a regular file may be opened is asked when its header block is on the wire, and not when the
request is answered: the answer is made from the metadata alone.  So a file without the right to
read is announced like any other.  What follows the header block is the whole file when it can be
opened, and nothing when it cannot (`file_sent`); the page that says that access is forbidden is not
sent for it (`announced_unopened`).
-/

namespace SiteServer

namespace Tree

variable {tree : Tree} {path : Text} {size : Nat}

/-- A regular file is opened with all its bytes, unless it may not be read. -/
lemma IsFile.open?_cases (h : tree.IsFile path size) :
    (∃ inode, tree.open? path = .ok inode ∧ (tree.content inode).size = size) ∨
      tree.open? path = .error .denied := by
  obtain ⟨info, inode, hstat, hkind⟩ := h
  by_cases hreadable : info.readable = true
  · exact .inl ⟨inode, by simp [open?, hstat, hkind, hreadable], Site.size_of_stat hstat hkind⟩
  · exact .inr (by simp [open?, hstat, hkind, hreadable])

end Tree

namespace Site

variable {H : Type} {site : Site H} {ask : H → Handler} {date requested file : Text} {tree : Tree}
  {params : List Param} {size : Nat}

/-- A request without a handler leads to the file at its path, or to the index of the directory
there. -/
def LeadsTo (site : Site H) (tree : Tree) (requested file : Text) : Prop :=
  let path := Target.filePath site.policy site.root requested
  file = path ∨ tree.isDirectory path = true ∧ file = Path.join path site.index

/-- A regular file is the answer whatever the rights to it are. -/
lemma answer_of_isFile (hmount : site.mount? requested = none)
    (hleads : site.LeadsTo tree requested file) (hfile : tree.IsFile file size) :
    site.answer ask date tree requested params = .ok (served date file size) := by
  simp only [answer, hmount]
  rcases hleads with rfl | ⟨hdirectory, rfl⟩
  · obtain ⟨info, inode, hstat, hkind⟩ := hfile
    exact (Found.file hstat hkind).fileAnswer_eq
  · obtain ⟨info, hstat, hkind⟩ := Tree.exists_of_isDirectory hdirectory
    exact (Found.index hstat hkind hfile).fileAnswer_eq

lemma bodyFrom_served {inode : Nat} (hopen : tree.open? file = .ok inode)
    (hsize : (tree.content inode).size = size) :
    (served date file size).bodyFrom tree = (tree.content inode).toList := by
  simp only [Response.bodyFrom, served, hopen]
  exact List.take_of_length_le (Nat.le_of_eq (by rw [Content.length_toList, hsize]))

lemma bodyFrom_served_of_denied (hopen : tree.open? file = .error .denied) :
    (served date file size).bodyFrom tree = [] := by
  simp only [Response.bodyFrom, served, hopen]

end Site

namespace Surroundings

variable {H : Type} {around : Surroundings H} {read : Bytes} {request : Request}

lemma response?_of_parse (hread : read ≠ []) (hshort : read.length < Connection.bufferSize)
    (hparse : Request.parse read = .ok request) :
    around.response? read
      = (around.site.answer around.ask around.date around.tree request.path
          request.params).toOption := by
  rw [response?, if_neg (not_or.2 ⟨hread, Nat.ne_of_lt hshort⟩), hparse]

lemma sends_of_response? {response : Response} (hshort : read.length < Connection.bufferSize)
    (h : around.response? read = some response) :
    around.sends read = response.sentFrom around.tree := by
  rw [sends, List.take_of_length_le (Nat.le_of_lt hshort), h]

end Surroundings

namespace Connection

variable {H : Type} {around : Surroundings H} {read : Bytes} {request : Request} {file : Text}
  {size : Nat}

/-- A request that leads to a regular file is answered with a header block that announces all its
bytes, whether it may be opened or not.  They follow when it may, and none does when it may not; so
as many bytes as have been announced are sent exactly when it may be opened or is empty. -/
theorem file_sent (around : Surroundings H) (hread : read ≠ []) (hshort : read.length < bufferSize)
    (hparse : Request.parse read = .ok request)
    (hmount : around.site.mount? request.path = none)
    (hleads : around.site.LeadsTo around.tree request.path file)
    (hfile : around.tree.IsFile file size) :
    let response := Site.served around.date file size
    around.response? read = some response ∧
      response.status = .ok ∧ response.contentLength = size ∧
      ((∃ inode, around.tree.open? file = .ok inode ∧
          ∀ bytes, SentAlone around read bytes ↔
            bytes = response.header ++ (around.tree.content inode).toList) ∨
        around.tree.open? file = .error .denied ∧
          ∀ bytes, SentAlone around read bytes ↔ bytes = response.header) ∧
      ∀ bytes, SentAlone around read bytes →
        (bytes.length = response.header.length + response.contentLength ↔
          (∃ inode, around.tree.open? file = .ok inode) ∨ size = 0) := by
  intro response
  have hresponse : around.response? read = some response := by
    rw [Surroundings.response?_of_parse hread hshort hparse,
      Site.answer_of_isFile hmount hleads hfile]
    rfl
  have hsent (bytes : Bytes) : SentAlone around read bytes ↔
      bytes = response.header ++ response.bodyFrom around.tree := by
    rw [sentAlone_iff, Surroundings.sends_of_response? hshort hresponse]
    rfl
  refine ⟨hresponse, rfl, rfl, ?_⟩
  rcases hfile.open?_cases with ⟨inode, hopen, hsize⟩ | hopen
  · have hbody : response.bodyFrom around.tree = (around.tree.content inode).toList :=
      Site.bodyFrom_served hopen hsize
    refine ⟨.inl ⟨inode, hopen, fun bytes => hbody ▸ hsent bytes⟩, fun bytes hbytes => ?_⟩
    rw [(hsent bytes).1 hbytes, hbody, List.length_append, Content.length_toList, hsize]
    exact iff_of_true rfl (.inl ⟨inode, hopen⟩)
  · have hbody : response.bodyFrom around.tree = [] := Site.bodyFrom_served_of_denied hopen
    rw [hbody] at hsent
    simp only [List.append_nil] at hsent
    refine ⟨.inr ⟨hopen, hsent⟩, fun bytes hbytes => ?_⟩
    have hlength : response.contentLength = size := rfl
    rw [(hsent bytes).1 hbytes, hopen, hlength]
    simp

/-- The file of the small site is sent with its three bytes. -/
theorem file_sent_tinySite :
    tinySite.tree.IsFile "/a".toList 3 ∧ tinySite.tree.open? "/a".toList = .ok 0 ∧
      SentAlone tinySite tinyRequest
        ((Site.served tinySite.date "/a".toList 3).header ++ [1, 2, 3]) := by
  have hparse : Request.parse tinyRequest = .ok ⟨.http10, "/a".toList, [], {}⟩ := by decide +kernel
  have hleads : tinySite.site.LeadsTo tinySite.tree "/a".toList "/a".toList :=
    .inl (by decide +kernel)
  have hfile : tinySite.tree.IsFile "/a".toList 3 := ⟨_, 0, stat_tinySite, rfl⟩
  have hopen : tinySite.tree.open? "/a".toList = .ok 0 := by
    rw [Tree.open?, stat_tinySite]
    rfl
  have hne : tinyRequest ≠ [] := by decide +kernel
  obtain ⟨-, -, -, ⟨inode, hinode, hsent⟩ | ⟨hdenied, -⟩, -⟩ :=
    file_sent tinySite hne (by decide +kernel) hparse (RouteTable.lookup_empty _) hleads hfile
  · obtain rfl : 0 = inode := Except.ok.inj (hopen.symm.trans hinode)
    exact ⟨hfile, hopen, (hsent _).2 (congrArg _ (Content.toList_ofBytes [1, 2, 3]).symm)⟩
  · exact nomatch hopen.symm.trans hdenied

/-- The small site without the right to read its file. -/
def sealedSite : Surroundings Unit :=
  { tinySite with
    tree := { tinySite.tree with
      entries := [([], { node := .directory, modified := 0 }),
        (["a".toList], { node := .file 0, modified := 0, readable := false })]
      hierarchical := by decide +kernel } }

lemma stat_sealedSite :
    sealedSite.tree.stat "/a".toList = .ok ⟨.file 0 3, 0, false, ["a".toList]⟩ := by
  decide +kernel

/-- A file that may not be read is announced, and the client gets neither its bytes nor the page
that says that access is forbidden. -/
theorem announced_unopened :
    sealedSite.tree.stat "/a".toList = .ok ⟨.file 0 3, 0, false, ["a".toList]⟩ ∧
      sealedSite.tree.open? "/a".toList = .error .denied ∧
      (∀ bytes, SentAlone sealedSite tinyRequest bytes ↔
        bytes = (Site.served sealedSite.date "/a".toList 3).header) ∧
      ¬ SentAlone sealedSite tinyRequest
        ((ErrorPage.forbidden sealedSite.date).sentFrom sealedSite.tree) := by
  have hparse : Request.parse tinyRequest = .ok ⟨.http10, "/a".toList, [], {}⟩ := by decide +kernel
  have hopen : sealedSite.tree.open? "/a".toList = .error .denied := by
    rw [Tree.open?, stat_sealedSite]
    rfl
  have hanswer :
      sealedSite.site.answer sealedSite.ask sealedSite.date sealedSite.tree "/a".toList []
        = .ok (Site.served sealedSite.date "/a".toList 3) :=
    Site.answer_of_isFile (RouteTable.lookup_empty _) (.inl (by decide +kernel))
      ⟨_, 0, stat_sealedSite, rfl⟩
  have hshort : tinyRequest.length < bufferSize := by decide +kernel
  have hresponse : sealedSite.response? tinyRequest
      = some (Site.served sealedSite.date "/a".toList 3) := by
    rw [Surroundings.response?_of_parse (by decide +kernel) hshort hparse, hanswer]
    rfl
  have hsent (bytes : Bytes) : SentAlone sealedSite tinyRequest bytes ↔
      bytes = (Site.served sealedSite.date "/a".toList 3).header := by
    rw [sentAlone_iff, Surroundings.sends_of_response? hshort hresponse, Response.sentFrom,
      Site.bodyFrom_served_of_denied hopen, List.append_nil]
  refine ⟨stat_sealedSite, hopen, hsent, ?_⟩
  rw [hsent]
  decide +kernel

end Connection

end SiteServer
