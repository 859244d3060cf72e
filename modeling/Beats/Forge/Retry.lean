import Beats.Forge.Github
import Beats.Lib.Machine

/-!
# Cutting a release again

`Client.Cut` finds the branch of its key, its file and its pull request as earlier calls left them,
and does what is missing.  The earlier calls are cuts and withdrawals of the key, of which every
request may have failed, and a human may have merged a pull request and left its branch in place
(`Event`).

What is missing is read off the branch: a commit is skipped where the branch reads as the release
does.  A branch that was merged can read as the release does while its base does not, and an absent
file reads as an empty one (`retrySafe_iff`).  Then the pull request is refused, and will be at
every retry (`mergedLeftover_stuck`).
-/

namespace Beats.Forge

open Lib Actuate Prog Function List Machine Hub

/-! ## Histories -/

/-- How a pull request is merged. -/
inductive Style where
  /-- By a merge commit: the base is made from the head. -/
  | merge
  /-- By squashing or rebasing: the commits of the base are new ones. -/
  | squash

/-- The files of the newest commit of the head that the base was made from. -/
def mergeBase (ours theirs : Commit) : Files :=
  ((theirs.history.find? fun e => e.1 ∈ ours.numbers).map Prod.snd).getD fun _ => none

/-- A three-way merge.  Where both sides changed a path, and not to the same, someone has to resolve
the conflict. -/
def threeWay (base ours theirs resolution : Files) : Files := fun path =>
  if theirs path = base path then ours path
  else if ours path = base path then theirs path
  else if ours path = theirs path then ours path
  else resolution path

/-- The commit that a merge makes on the base. -/
def Style.merged (style : Style) (ours theirs : Commit) (number : Nat) (resolution : Files) :
    Commit :=
  let files := threeWay (mergeBase ours theirs) ours.files theirs.files resolution
  { files := files
    history := (number, files) ::
      match style with
      | .merge => ours.history ++ theirs.history
      | .squash => ours.history }

/-- The hub after a merge into the base, with the head branch left in place. -/
def Hub.mergePull (h : Hub) (style : Style) (resolution : Files) (number : Nat) (base : String)
    (ours theirs : Commit) : Hub :=
  { (h.review (.merge number)).review
      (.push base (style.merged ours theirs (h.commits + 1) resolution)) with
    commits := h.commits + 1 }

/-- What happens to the releases of a key.  Each request of a call has its own luck. -/
inductive Event where
  | cut (path content notes : String) (luck : Nat → Luck)
  | withdraw (luck : Nat → Luck)
  | merge (style : Style) (resolution : Files)

/-- What a call leaves, and what it returns. -/
def called {α : Type} (luck : Nat → Luck) (h : Hub) (p : Prog iface ForgeError α) :
    Except ForgeError α × Hub :=
  let (out, h, _) := Prog.runIn
    (fun (s : Hub × Nat) c =>
      let (r, h) := s.1.serve (luck s.2) c
      (r, h, s.2 + 1)) (h, 0) p
  (out, h)

def Hub.openPull (h : Hub) (branch : String) : Option Pull := (h.pulls branch).find? Pull.isOpen

/-- The hub, the client and whoever merges, as a machine. -/
def history (c : Client) (key : String) : Machine Hub Event where
  step h
    | .cut path content notes luck => some (called luck h (c.cut { key, path, content, notes })).2
    | .withdraw luck => some (called luck h (withdraw key)).2
    | .merge style resolution =>
      match h.openPull (branchFor key), h.refs c.base, h.refs (branchFor key) with
      | some p, some ours, some theirs =>
        some (h.mergePull style resolution p.number c.base ours theirs)
      | _, _, _ => none

/-! ## Retries -/

/-- A cut that sees no request fail. -/
def cutFine (c : Client) (h : Hub) (rel : Release) : Except ForgeError Nat × Hub :=
  (c.cut rel).runIn effect h

/-- The cut returns the one pull request that is open for its branch, whose file is that of the
release and which is ahead of the base, and a second cut changes nothing. -/
structure RetrySafe (c : Client) (h : Hub) (rel : Release) : Prop where
  released : ∃ p, (cutFine c h rel).1 = .ok p.number ∧
    ((cutFine c h rel).2.pulls (branchFor rel.key)).filter Pull.isOpen = [p]
  content : (cutFine c h rel).2.file (branchFor rel.key) rel.path = some rel.content
  ahead : (cutFine c h rel).2.Ahead (branchFor rel.key) c.base
  again : cutFine c (cutFine c h rel).2 rel = cutFine c h rel

/-- The head of the branch, or else of the base. -/
def Hub.tip (h : Hub) (branch base : String) : Option Commit := (h.refs branch).or (h.refs base)

/-- What a cut finds at the path. -/
def Hub.reads (h : Hub) (branch base path : String) : Option String :=
  (h.tip branch base).bind (·.files path)

/-- The branch is not the base, and the release makes a commit on it, or its file is there and the
branch is ahead. -/
def Pending (c : Client) (h : Hub) (rel : Release) : Prop :=
  c.base ≠ branchFor rel.key ∧
    ((h.reads (branchFor rel.key) c.base rel.path).getD "" ≠ rel.content ∨
      h.reads (branchFor rel.key) c.base rel.path = some rel.content ∧
        h.Ahead (branchFor rel.key) c.base)

instance (c : Client) (h : Hub) (rel : Release) : Decidable (Pending c h rel) :=
  inferInstanceAs (Decidable (_ ∧ (_ ∨ _ ∧ _)))

/-! ## Sound repositories -/

/-- What every history keeps of the hub. -/
structure Hub.Sound (h : Hub) (base : String) : Prop where
  wf : h.Wf
  base : ∃ commit, h.refs base = some commit
  known : ∀ {ref commit}, h.refs ref = some commit → ∀ n ∈ commit.numbers, n ≤ h.commits

section

variable {h : Hub} {base : String}

@[simp] theorem Commit.files_edit (c : Commit) (number : Nat) (path content : String) :
    (c.edit number path content).files path = some content := update_self ..

variable {h' : Hub} {branch : String} {c : Call}

theorem Hub.Sound.update (hs : h.Sound base) {commit : Commit}
    (hrefs : h'.refs = update h.refs branch (some commit)) (hwf : h'.Wf)
    (hle : h.commits ≤ h'.commits) (hknown : ∀ n ∈ commit.numbers, n ≤ h'.commits) :
    h'.Sound base where
  wf := hwf
  base := by
    rw [hrefs]
    by_cases hb : base = branch
    · exact ⟨commit, by rw [hb, update_self]⟩
    · rw [update_of_ne hb]
      exact hs.base
  known {ref commit'} href n hn := by
    rw [hrefs] at href
    by_cases hb : ref = branch
    · rw [hb, update_self] at href
      cases href
      exact hknown n hn
    · rw [update_of_ne hb] at href
      exact Nat.le_trans (hs.known href n hn) hle

theorem Hub.Sound.keeps (hs : h.Sound base) (hwf : h'.Wf) (hrefs : h'.refs = h.refs)
    (hcommits : h'.commits = h.commits) : h'.Sound base where
  wf := hwf
  base := hrefs ▸ hs.base
  known href := by
    rw [hrefs] at href
    rw [hcommits]
    exact hs.known href

theorem Hub.Sound.committing (hs : h.Sound base) {tip : Commit} (htip : h.refs branch = some tip)
    (path content : String) :
    (h.committing branch tip path content).Sound base := by
  refine hs.update rfl (hs.wf.keeps (.of_pulls_eq rfl rfl)) (Nat.le_succ _) ?_
  intro n hn
  rcases mem_cons.mp hn with rfl | hn
  · exact Nat.le_refl _
  · exact Nat.le_succ_of_le (hs.known htip n hn)

theorem Hub.Sound.effect (hs : h.Sound base) (hc : c ≠ .deleteRef base) :
    (h.effect c).2.Sound base := by
  have hwf : (h.effect c).2.Wf := by
    rcases effect_cases h c with hk | ⟨branch, _, _, -, hclosed, he⟩
    · exact hs.wf.keeps hk
    · exact he ▸ hs.wf.opening hclosed
  cases c with
  | refSHA ref =>
    refine hs.keeps hwf ?_ ?_ <;> rw [effect] <;> split <;> rfl
  | blobAt path ref =>
    refine hs.keeps hwf ?_ ?_ <;> rw [effect] <;> split <;> rfl
  | findPull branch onlyOpen => exact hs
  | closePull number => exact hs.keeps hwf rfl rfl
  | createPull branch base' notes =>
    refine hs.keeps hwf ?_ ?_ <;> rw [effect] <;> split <;> rfl
  | createRef branch sha =>
    rw [effect] at hwf ⊢
    split at hwf
    next hnew =>
      rw [if_pos hnew]
      exact hs.update rfl hwf (Nat.le_refl _) hnew.2
    next hold =>
      rw [if_neg hold]
      exact hs
  | putContents path branch content sha =>
    rw [effect]
    split
    next tip htip =>
      split
      · exact hs.committing htip path content
      · exact hs
    · exact hs
  | deleteRef branch =>
    have hne : base ≠ branch := fun hb => hc (by rw [hb])
    rw [effect] at hwf ⊢
    split
    next href =>
      rw [href] at hwf
      refine ⟨hwf, ?_, ?_⟩
      · obtain ⟨commit, hcommit⟩ := hs.base
        exact ⟨commit, (update_of_ne hne ..).trans hcommit⟩
      · intro ref commit hcommit
        by_cases hb : ref = branch
        · rw [hb] at hcommit
          cases (update_self ..).symm.trans hcommit
        · exact hs.known ((update_of_ne hb ..).symm.trans hcommit)
    · exact hs

theorem Hub.Sound.serve (hs : h.Sound base) (luck : Luck) (hc : c ≠ .deleteRef base) :
    (h.serve luck c).2.Sound base := by
  cases luck with
  | fine | lost _ => exact hs.effect hc
  | refused err => exact hs

/-- A call keeps the repository sound, whatever becomes of its requests, if it does not delete the
base. -/
theorem Hub.Sound.called {α σ : Type} {M : Monitor iface σ} {Q : σ → Except ForgeError α → Prop}
    {p : Prog iface ForgeError α} {s : σ} (hp : M.Allows Q p s)
    (hM : ∀ s c, M.permits s c → c ≠ .deleteRef base) (hs : h.Sound base) (luck : Nat → Luck) :
    (called luck h p).2.Sound base := by
  have hkeep : ∀ (s : σ) (x : Hub × Nat) (c : Call), M.permits s c → x.1.Sound base →
      (x.1.serve (luck x.2) c).2.Sound base :=
    fun s x c hc hx => hx.serve (luck x.2) (hM s c hc)
  exact hp.runIn_invariant (P := fun x : Hub × Nat => x.1.Sound base) hkeep hs

theorem Hub.Sound.mergePull (hs : h.Sound base) {ours theirs : Commit}
    (hours : h.refs base = some ours) (htheirs : h.refs branch = some theirs) (style : Style)
    (resolution : Files) (number : Nat) :
    (h.mergePull style resolution number base ours theirs).Sound base := by
  have hwf : (h.mergePull style resolution number base ours theirs).Wf :=
    ((hs.wf.keeps (keeps_review h (.merge number))).keeps (.of_pulls_eq rfl rfl))
  refine hs.update rfl hwf (Nat.le_succ _) fun n hn => ?_
  have hold : n ∈ ours.numbers ∨ n ∈ theirs.numbers → n ≤ h.commits + 1
    | .inl hn => Nat.le_succ_of_le (hs.known hours n hn)
    | .inr hn => Nat.le_succ_of_le (hs.known htheirs n hn)
  rcases mem_cons.mp hn with rfl | hn
  · exact Nat.le_refl _
  · cases style with
    | merge =>
      refine hold (mem_append.mp ?_)
      rwa [map_append] at hn
    | squash => exact hold (.inl hn)

theorem sound_of_step {c : Client} {key : String} {e : Event} (hne : c.base ≠ branchFor key)
    (hs : h.Sound c.base) (hstep : (history c key).step h e = some h') : h'.Sound c.base := by
  cases e with
  | cut path content notes luck =>
    cases hstep
    refine hs.called (cutting_cut c _ (s := none)) ?_ luck
    rintro s _ hc rfl
    exact hc
  | withdraw luck =>
    cases hstep
    refine hs.called (polling_withdraw key) ?_ luck
    rintro s _ hc rfl
    exact hne hc
  | merge style resolution =>
    simp only [history] at hstep
    split at hstep
    next p ours theirs _ hours htheirs =>
      cases hstep
      exact hs.mergePull hours htheirs style resolution p.number
    next => cases hstep

end

/-! ## A cut, part by part -/

/-- The hub after the branch is ensured. -/
def Hub.branched (h : Hub) (branch base : String) : Hub :=
  { h with refs := update h.refs branch (h.tip branch base) }

/-- The hub with the content on the branch, which is committed where the branch reads otherwise. -/
def Hub.written (h : Hub) (branch : String) (tip : Commit) (path content : String) : Hub :=
  if (tip.files path).getD "" = content then h else h.committing branch tip path content

/-- The pull of the branch, opened where there is none. -/
def Hub.published (h : Hub) (branch base : String) : Except ForgeError Nat × Hub :=
  match h.openPull branch with
  | some p => (.ok p.number, h)
  | none =>
    if h.Ahead branch base then (.ok (h.opened + 1), h.opening branch)
    else (.error (errForgeStatus "422 Unprocessable Entity"), h)

section

variable {c : Client} {h h' : Hub} {branch base path content : String} {tip commit : Commit}
  {rel : Release}

theorem branched_of_some (htip : h.refs branch = some tip) : h.branched branch base = h := by
  rw [Hub.branched, Hub.tip, htip, Option.some_or, ← htip, update_eq_self]

theorem runIn_ensureBranch_of_some (htip : h.refs branch = some tip) :
    (c.ensureBranch branch).runIn effect h = (.ok (), h) := by
  have hask : h.effect (.refSHA branch) = (.ok tip, h) := by rw [effect, htip]
  exact (runIn_ask hask).trans rfl

theorem runIn_ensureBranch_of_none (hs : h.Sound c.base) (hnone : h.refs branch = none) :
    (c.ensureBranch branch).runIn effect h = (.ok (), h.branched branch c.base) := by
  obtain ⟨commit, hbase⟩ := hs.base
  have hask : h.effect (.refSHA branch) = (.error errNotFound, h) := by rw [effect, hnone]
  have hread : h.effect (.refSHA c.base) = (.ok commit, h) := by rw [effect, hbase]
  have hmake : h.effect (.createRef branch commit) = (.ok (), h.branched branch c.base) := by
    rw [effect, if_pos ⟨hnone, hs.known hbase⟩, branched, tip, hnone, hbase]
    rfl
  refine (runIn_ask hask).trans ?_
  refine (runIn_ask hread).trans ?_
  exact (runIn_ask hmake).trans rfl

theorem runIn_ensureContent (htip : h.refs branch = some tip) :
    (ensureContent path branch content).runIn effect h =
      (.ok (), h.written branch tip path content) := by
  have hput : h.effect (.putContents path branch content (tip.files path)) =
      (.ok (), h.committing branch tip path content) := by
    rw [effect, htip]
    exact if_pos rfl
  have hfile : h.file branch path = tip.files path := by rw [file, htip, Option.bind_some]
  rw [written]
  cases hf : tip.files path with
  | some current =>
    have hask : h.effect (.blobAt path branch) = (.ok current, h) := by rw [effect, hfile, hf]
    rw [hf] at hput
    refine (runIn_ask hask).trans ?_
    by_cases heq : current = content
    · simp only [heq, if_true, Option.getD_some]
      rfl
    · simp only [heq, if_false, Option.getD_some]
      exact (runIn_ask hput).trans rfl
  | none =>
    have hask : h.effect (.blobAt path branch) = (.error errNotFound, h) := by
      rw [effect, hfile, hf]
    rw [hf] at hput
    refine (runIn_ask hask).trans ?_
    by_cases heq : "" = content
    · rw [Option.getD_none, if_pos heq, ← heq]
      rfl
    · simp only [heq, if_false, Option.getD_none]
      exact (runIn_ask hput).trans rfl

theorem cutFine_of_some (htip : h.refs (branchFor rel.key) = some tip) : cutFine c h rel =
      (h.written (branchFor rel.key) tip rel.path rel.content).published
        (branchFor rel.key) c.base := by
  refine (runIn_bind (runIn_ensureBranch_of_some htip)).trans ?_
  refine (runIn_bind (runIn_ensureContent htip)).trans ?_
  generalize h.written (branchFor rel.key) tip rel.path rel.content = h
  have hfind : h.effect (.findPull (branchFor rel.key) true) =
      (.ok (h.openPull (branchFor rel.key)), h) := rfl
  refine (runIn_ask hfind).trans ?_
  rw [published]
  cases ho : h.openPull (branchFor rel.key) with
  | some p => rfl
  | none =>
    have hclosed : ¬ (h.pulls (branchFor rel.key)).any Pull.isOpen := by
      rw [openPull, find?_eq_none] at ho
      simpa using ho
    by_cases ha : h.Ahead (branchFor rel.key) c.base
    · have hopen : h.effect (.createPull (branchFor rel.key) c.base rel.notes) =
          (.ok (h.opened + 1), h.opening (branchFor rel.key)) := by
        rw [effect, if_pos ⟨ha, hclosed⟩]
      rw [if_pos ha]
      exact (runIn_ask hopen).trans rfl
    · have hrefused : h.effect (.createPull (branchFor rel.key) c.base rel.notes) =
          (.error (errForgeStatus "422 Unprocessable Entity"), h) := by
        rw [effect, if_neg fun hc => ha hc.1]
      rw [if_neg ha]
      exact (runIn_ask hrefused).trans rfl

theorem refs_branched : (h.branched branch base).refs branch = h.tip branch base := update_self ..

theorem cutFine_branched (hs : h.Sound c.base) :
    cutFine c (h.branched (branchFor rel.key) c.base) rel = cutFine c h rel := by
  cases hb : h.refs (branchFor rel.key) with
  | some tip => rw [branched_of_some hb]
  | none =>
    obtain ⟨commit, hbase⟩ := hs.base
    have hmade : (h.branched (branchFor rel.key) c.base).refs (branchFor rel.key) =
        some commit := by
      rw [refs_branched, tip, hb, hbase]
      rfl
    refine (runIn_bind (runIn_ensureBranch_of_some hmade)).trans ?_
    symm
    exact (runIn_bind (runIn_ensureBranch_of_none hs hb)).trans rfl

/-! ## What the parts leave -/

theorem not_ahead_self (h : Hub) (branch : String) : ¬ h.Ahead branch branch := by
  rintro ⟨head, hhead, commit, hcommit, n, hn, hnot⟩
  cases (Option.some.inj (hhead.symm.trans hcommit))
  exact hnot hn

theorem ahead_branched (hne : base ≠ branch) :
    (h.branched branch base).Ahead branch base ↔ h.Ahead branch base := by
  cases hb : h.refs branch with
  | some tip => rw [branched_of_some hb]
  | none =>
    have hsame : (h.branched branch base).refs branch = (h.branched branch base).refs base := by
      rw [refs_branched, tip, hb, Option.none_or]
      exact (update_of_ne hne ..).symm
    refine iff_of_false ?_ ?_
    · intro ha
      refine not_ahead_self (h.branched branch base) base ?_
      rwa [Ahead, hsame] at ha
    · rintro ⟨head, hhead, -⟩
      cases hb.symm.trans hhead

theorem refs_published (h : Hub) (branch base : String) :
    (h.published branch base).2.refs = h.refs := by
  rw [published]
  split
  · rfl
  · split <;> rfl

theorem published_of_ahead (hwf : h.Wf) (ha : h.Ahead branch base) :
    ∃ p, (h.published branch base).1 = .ok p.number ∧
      ((h.published branch base).2.pulls branch).filter Pull.isOpen = [p] := by
  rw [published]
  cases ho : h.openPull branch with
  | some p =>
    refine ⟨p, rfl, ?_⟩
    have holder := hwf.older branch
    rw [openPull] at ho
    cases hps : h.pulls branch with
    | nil =>
      rw [hps] at ho
      cases ho
    | cons q qs =>
      rw [hps] at ho holder
      have hqs : qs.filter Pull.isOpen = [] := by simpa [filter_eq_nil_iff] using holder
      have hhead : ((q :: qs).filter Pull.isOpen).head? = some p := by rw [head?_filter, ho]
      rw [filter_cons, hqs] at hhead ⊢
      split at hhead
      · cases hhead
        rw [if_pos ‹_›]
      · cases hhead
  | none =>
    refine ⟨{ number := h.opened + 1 }, by rw [if_pos ha], ?_⟩
    rw [if_pos ha]
    rw [openPull, find?_eq_none] at ho
    have hold : (h.pulls branch).filter Pull.isOpen = [] := by simpa [filter_eq_nil_iff] using ho
    rw [opening]
    simp [hold]

theorem RetrySafe.congr (hcut : cutFine c h rel = cutFine c h' rel) :
    RetrySafe c h rel ↔ RetrySafe c h' rel := by
  constructor
  · rintro ⟨hreleased, hcontent, ha, hagain⟩
    rw [hcut] at hreleased hcontent ha hagain
    exact ⟨hreleased, hcontent, ha, hagain⟩
  · rintro ⟨hreleased, hcontent, ha, hagain⟩
    rw [← hcut] at hreleased hcontent ha hagain
    exact ⟨hreleased, hcontent, ha, hagain⟩

/-- A cut that leaves its release for review is not made again. -/
theorem retrySafe_of_ahead (hwf : h.Wf) (htip : h.refs (branchFor rel.key) = some tip)
    (hcut : cutFine c h' rel = h.published (branchFor rel.key) c.base)
    (hfile : tip.files rel.path = some rel.content) (ha : h.Ahead (branchFor rel.key) c.base) :
    RetrySafe c h' rel := by
  obtain ⟨p, hnumber, hopen⟩ := published_of_ahead hwf ha
  have hrefs := refs_published h (branchFor rel.key) c.base
  have htip' : (h.published (branchFor rel.key) c.base).2.refs (branchFor rel.key) = some tip := by
    rw [hrefs, htip]
  refine ⟨⟨p, by rw [hcut, hnumber], by rw [hcut, hopen]⟩, ?_, ?_, ?_⟩
  · rw [hcut, file, htip', Option.bind_some, hfile]
  · rw [hcut, Ahead, hrefs]
    exact ha
  · have hfound : (h.published (branchFor rel.key) c.base).2.openPull (branchFor rel.key) =
        some p := by
      rw [openPull, ← head?_filter, hopen, head?_cons]
    rw [hcut, cutFine_of_some htip', written, if_pos (by rw [hfile]; rfl)]
    conv_lhs => rw [published, hfound]
    exact Prod.ext hnumber.symm rfl

/-- The hub before the pull request is looked for has the file and is ahead, or the cut leaves
nothing for review. -/
theorem retrySafe_iff_of_some (hwf : h.Wf) (htip : h.refs (branchFor rel.key) = some tip)
    (hbase : h.refs c.base = some commit) (hknown : ∀ n ∈ commit.numbers, n ≤ h.commits)
    (hne : c.base ≠ branchFor rel.key) :
    RetrySafe c h rel ↔ (tip.files rel.path).getD "" ≠ rel.content ∨
      tip.files rel.path = some rel.content ∧ h.Ahead (branchFor rel.key) c.base := by
  have hcut := cutFine_of_some (c := c) htip
  by_cases hsame : (tip.files rel.path).getD "" = rel.content
  · rw [written, if_pos hsame] at hcut
    constructor
    · intro hr
      have hfile := hr.content
      have ha := hr.ahead
      rw [hcut, file, refs_published, htip, Option.bind_some] at hfile
      rw [hcut, Ahead, refs_published] at ha
      exact .inr ⟨hfile, ha⟩
    · rintro (hdiffers | ⟨hfile, ha⟩)
      · exact absurd hsame hdiffers
      · exact retrySafe_of_ahead hwf htip hcut hfile ha
  · rw [written, if_neg hsame] at hcut
    refine iff_of_true ?_ (.inl hsame)
    have htip' : (h.committing (branchFor rel.key) tip rel.path rel.content).refs
        (branchFor rel.key) = some (tip.edit (h.commits + 1) rel.path rel.content) :=
      update_self ..
    have hwf' : (h.committing (branchFor rel.key) tip rel.path rel.content).Wf :=
      hwf.keeps (.of_pulls_eq rfl rfl)
    refine retrySafe_of_ahead hwf' htip' hcut (Commit.files_edit ..) ?_
    -- The new commit has a number that no commit of the base has.
    refine ⟨_, htip', commit, (update_of_ne hne ..).trans hbase, ?_⟩
    refine ⟨h.commits + 1, mem_cons_self, fun hn => ?_⟩
    exact absurd (hknown _ hn) (Nat.not_succ_le_self _)

end

/-- After every history of the key, a cut that sees no request fail leaves its release for review,
and nothing to be done again, exactly if the release is pending. -/
theorem retrySafe_iff (c : Client) (rel : Release) (h₀ h : Hub) (es : List Event)
    (hs : h₀.Sound c.base) (hr : (history c rel.key).run h₀ es = some h) :
    RetrySafe c h rel ↔ Pending c h rel := by
  by_cases hne : c.base = branchFor rel.key
  · refine iff_of_false ?_ fun hp => hp.1 hne
    intro hsafe
    have ha := hsafe.ahead
    rw [hne] at ha
    exact not_ahead_self _ _ ha
  · have hsound : h.Sound c.base :=
      run_invariant (fun _ _ _ hs _ => sound_of_step hne hs) hs
        (along_trivial _ _ _) hr
    obtain ⟨commit, hbase⟩ := hsound.base
    obtain ⟨tip, htip⟩ : ∃ tip, h.tip (branchFor rel.key) c.base = some tip := by
      rw [tip, hbase]
      cases h.refs (branchFor rel.key) with
      | none => exact ⟨commit, rfl⟩
      | some tip => exact ⟨tip, rfl⟩
    have hmade := retrySafe_iff_of_some (h := h.branched (branchFor rel.key) c.base)
      (hsound.wf.keeps (.of_pulls_eq rfl rfl)) (refs_branched.trans htip)
      ((update_of_ne hne ..).trans hbase) (hsound.known hbase) hne
    have hreads : h.reads (branchFor rel.key) c.base rel.path = tip.files rel.path := by
      rw [reads, htip, Option.bind_some]
    rw [ahead_branched hne] at hmade
    rw [Pending, hreads, and_iff_right hne, ← hmade, RetrySafe.congr (cutFine_branched hsound)]

/-! ## Leftovers -/

/-- A repository with one file. -/
def flagsRepo (content : String) : Hub where
  refs ref :=
    if ref = "main" then some (.root fun path => if path = "flags.json" then some content else none)
    else none

theorem flagsRepo_sound (content : String) : (flagsRepo content).Sound "main" where
  wf := wf_of_refs _
  base := ⟨_, rfl⟩
  known {ref commit} href n hn := by
    change (if ref = "main" then _ else none) = some commit at href
    split at href
    · cases href
      exact Nat.le_of_eq (mem_singleton.mp hn)
    · cases href

def flip (content : String) : Release := { key := "flip", path := "flags.json", content }

/-- A cut that fails before its pull request is opened. -/
def interrupted : List Event :=
  [.cut "flags.json" "on" "" fun k => if k = 5 then .refused { text := "timeout" } else .fine]

theorem interrupted_retrySafe :
    ∃ h, (history {} "flip").run (flagsRepo "off") interrupted = some h ∧
      h.file "thump/flip" "flags.json" = some "on" ∧ RetrySafe {} h (flip "on") := by
  exact exists_run_of (P := fun h =>
      h.file "thump/flip" "flags.json" = some "on" ∧ Pending {} h (flip "on"))
    (by decide +kernel) fun h hr ⟨hfile, hp⟩ =>
      ⟨hfile, (retrySafe_iff {} (flip "on") _ h _ (flagsRepo_sound _) hr).mpr hp⟩

/-- A release is squashed into the base, and the next one on its branch is merged by a merge commit,
which keeps what the base has. -/
def mergedLeftover : List Event :=
  [.cut "flags.json" "on" "" fun _ => .fine, .merge .squash fun _ => none,
   .cut "flags.json" "off" "" fun _ => .fine, .merge .merge fun _ => none]

/-- The release of an empty file. -/
def emptied : Release := { key := "flip", path := "notes.md" }

/-- After `mergedLeftover` the branch reads as the release does and the base does not, and the pull
request is refused.  A cut of an empty file, while a pull request is open, returns that one without
the file. -/
theorem mergedLeftover_stuck :
    (flagsRepo "off").Sound "main" ∧
    (∃ h, (history {} "flip").run (flagsRepo "off") mergedLeftover = some h ∧
      h.file "main" "flags.json" = some "on" ∧
      (cutFine {} h (flip "off")).1 = .error (errForgeStatus "422 Unprocessable Entity") ∧
      ¬ RetrySafe {} h (flip "off")) ∧
    ∃ h, (history {} "flip").run (flagsRepo "off") [.cut "flags.json" "on" "" fun _ => .fine] =
        some h ∧
      h.file "main" "notes.md" = none ∧ (cutFine {} h emptied).1 = .ok 1 ∧
      ¬ RetrySafe {} h emptied := by
  refine ⟨flagsRepo_sound _, ?_, ?_⟩
  · refine exists_run_of (P := fun h => h.file "main" "flags.json" = some "on" ∧
        (cutFine {} h (flip "off")).1 = .error (errForgeStatus "422 Unprocessable Entity"))
      (by decide +kernel) fun h _ ⟨hfile, hcut⟩ => ⟨hfile, hcut, fun hsafe => ?_⟩
    obtain ⟨p, hok, -⟩ := hsafe.released
    cases hcut.symm.trans hok
  · exact exists_run_of (P := fun h =>
        h.file "main" "notes.md" = none ∧ (cutFine {} h emptied).1 = .ok 1 ∧
        (cutFine {} h emptied).2.file "thump/flip" "notes.md" = none)
      (by decide +kernel) fun h _ ⟨hfile, hcut, hnone⟩ =>
        ⟨hfile, hcut, fun hsafe => by cases hnone.symm.trans hsafe.content⟩

end Beats.Forge
