import AgentGather.Storage.BoardReads

/-!
# A forum post that is not stored to the end

`createForumPost` opens `post.json` exclusively and writes it in place; a step that fails takes
nothing back.  The list of the channel reads every `post.json` there is.  So a post cut off
between its opening and its last brace makes the whole list fail, and only such a post does.
-/

namespace AgentGather.Storage.Boards

open AgentGather.Library AgentGather.Protocol

variable {toLowerCase : String → String} {localeLE : String → String → Bool}

/-! ## The list and one directory -/

section Listing

variable {files files' : BoardFiles} {key : PostKey} {channelId : String}

theorem mem_entries_iff {postId : String} :
    postId ∈ files.entries channelId ↔ (channelId, postId) ∈ files.forum.keys := by
  rw [BoardFiles.entries, List.mem_map]
  constructor
  · rintro ⟨⟨c, p⟩, hmem, rfl⟩
    rw [List.mem_filter, beq_iff_eq] at hmem
    obtain ⟨hmem, rfl⟩ := hmem
    exact hmem
  · intro hmem
    exact ⟨(channelId, postId), List.mem_filter.mpr ⟨hmem, beq_self_eq_true _⟩, rfl⟩

theorem entries_nodup (files : BoardFiles) (channelId : String) :
    (files.entries channelId).Nodup := by
  refine (files.forum.keys_nodup.filter _).map_on ?_
  intro a ha b hb hab
  rw [List.mem_filter, beq_iff_eq] at ha hb
  exact Prod.ext (ha.2.trans hb.2.symm) hab

theorem found_congr (h : files'.postFile key = files.postFile key) :
    files'.found toLowerCase key = files.found toLowerCase key := by
  simp only [BoardFiles.found, BoardFiles.validPost, BoardFiles.readPost, h]

/-- A directory without a post adds nothing. -/
theorem found_of_none (h : files.postFile key = none) :
    files.found toLowerCase key = .ok [] := by
  simp only [BoardFiles.found, BoardFiles.validPost, BoardFiles.readPost, h]
  rfl

theorem foundAll_congr {entries : List String}
    (h : ∀ postId ∈ entries, files'.found toLowerCase (channelId, postId) =
      files.found toLowerCase (channelId, postId)) :
    files'.foundAll toLowerCase channelId entries = files.foundAll toLowerCase channelId entries := by
  induction entries with
  | nil => rfl
  | cons postId entries ih =>
      rw [List.forall_mem_cons] at h
      rw [BoardFiles.foundAll, BoardFiles.foundAll, h.1, ih h.2]

theorem foundAll_append (u v : List String) :
    files.foundAll toLowerCase channelId (u ++ v) = (do
      let a ← files.foundAll toLowerCase channelId u
      let b ← files.foundAll toLowerCase channelId v
      return a ++ b) := by
  induction u with
  | nil =>
      simp only [List.nil_append, BoardFiles.foundAll]
      cases files.foundAll toLowerCase channelId v <;> rfl
  | cons postId u ih =>
      rw [List.cons_append, BoardFiles.foundAll, BoardFiles.foundAll, ih]
      cases files.found toLowerCase (channelId, postId) with
      | error e => rfl
      | ok found =>
          cases files.foundAll toLowerCase channelId u with
          | error e => rfl
          | ok a =>
              cases files.foundAll toLowerCase channelId v with
              | error e => rfl
              | ok b => exact congrArg Except.ok (List.append_assoc found a b).symm

theorem entries_makeDirectory (h : files.directory key = none) (channelId : String) :
    (files.makeDirectory key).entries channelId =
      files.entries channelId ++ if key.1 = channelId then [key.2] else [] := by
  have hnone : ¬ (files.directory key).isSome := by simp [h]
  have hkeys : (files.makeDirectory key).forum.keys = files.forum.keys ++ [key] := by
    rw [BoardFiles.makeDirectory, if_neg hnone]
    exact OrderedMap.keys_set_of_not_mem (OrderedMap.get?_eq_none_iff.mp h) _
  rw [BoardFiles.entries, hkeys, List.filter_append, List.map_append, BoardFiles.entries]
  congr 1
  by_cases hkey : key.1 = channelId
  · simp [hkey]
  · simp [hkey]

/-- A new directory leaves the list as it is. -/
theorem list_makeDirectory (key : PostKey) (files : BoardFiles) (channelId : String) :
    (files.makeDirectory key).list toLowerCase localeLE channelId =
      files.list toLowerCase localeLE channelId := by
  have hfound (postId : String) : (files.makeDirectory key).found toLowerCase
      (channelId, postId) = files.found toLowerCase (channelId, postId) :=
    found_congr (BoardFiles.postFile_makeDirectory key _ files)
  have hentries : (files.makeDirectory key).foundAll toLowerCase channelId
      ((files.makeDirectory key).entries channelId) =
      files.foundAll toLowerCase channelId (files.entries channelId) := by
    rw [foundAll_congr fun postId _ => hfound postId]
    cases h : files.directory key with
    | some d => rw [BoardFiles.makeDirectory_of_isSome (by simp [h])]
    | none =>
        rw [entries_makeDirectory h, foundAll_append]
        have hnew : files.foundAll toLowerCase channelId
            (if key.1 = channelId then [key.2] else []) = .ok [] := by
          by_cases hkey : key.1 = channelId
          · subst hkey
            have hnone : files.postFile (key.1, key.2) = none := by
              simp [BoardFiles.postFile, h]
            rw [if_pos rfl, BoardFiles.foundAll, found_of_none hnone]
            rfl
          · rw [if_neg hkey]
            rfl
        rw [hnew]
        cases files.foundAll toLowerCase channelId (files.entries channelId) with
        | error e => rfl
        | ok posts => exact congrArg Except.ok (List.append_nil posts)
  rw [BoardFiles.list, BoardFiles.list, hentries, checkForum_congr
    (BoardFiles.room_makeDirectory key files) (BoardFiles.boardroom_makeDirectory key files)]

/-- The directory that gets a post stands somewhere in the list, once. -/
theorem exists_split (h : (files.directory key).isSome) :
    ∃ u v, files.entries key.1 = u ++ key.2 :: v ∧ key.2 ∉ u ∧ key.2 ∉ v := by
  obtain ⟨d, hd⟩ := Option.isSome_iff_exists.mp h
  have hmem : key.2 ∈ files.entries key.1 :=
    mem_entries_iff.mpr (OrderedMap.mem_keys_of_get? hd)
  obtain ⟨u, v, huv⟩ := List.append_of_mem hmem
  have hnodup := entries_nodup files key.1
  rw [huv, List.nodup_middle, List.nodup_cons, List.mem_append, not_or] at hnodup
  exact ⟨u, v, huv, hnodup.1.1, hnodup.1.2⟩

section Written

variable {bytes : List Nat} {before : List ForumPost}

/-- The loop over the directories before and behind the one that got a post. -/
theorem foundAll_setPost (hdirectory : (files.directory key).isSome)
    (hnone : files.postFile key = none)
    {posts : List ForumPost}
    (hposts : files.foundAll toLowerCase key.1 (files.entries key.1) = .ok posts) :
    ∃ a b, posts = a ++ b ∧
      (files.modify key (PostFiles.setPost bytes)).foundAll toLowerCase key.1
        (files.entries key.1) =
      ((files.modify key (PostFiles.setPost bytes)).found toLowerCase key).map
        fun found => a ++ (found ++ b) := by
  obtain ⟨u, v, huv, hu, hv⟩ := exists_split hdirectory
  have hrest {entries : List String} (h : key.2 ∉ entries) :
      (files.modify key (PostFiles.setPost bytes)).foundAll toLowerCase key.1 entries =
        files.foundAll toLowerCase key.1 entries := by
    refine foundAll_congr fun postId hmem => found_congr ?_
    have hne : (key.1, postId) ≠ key := by
      intro heq
      exact h (congrArg Prod.snd heq ▸ hmem)
    rw [BoardFiles.postFile, BoardFiles.directory_modify_ne hne, BoardFiles.postFile]
  rw [huv, foundAll_append, BoardFiles.foundAll] at hposts ⊢
  rw [hrest hu, hrest hv]
  have hold : files.found toLowerCase (key.1, key.2) = .ok [] := found_of_none hnone
  rw [hold] at hposts
  cases ha : files.foundAll toLowerCase key.1 u with
  | error e =>
      rw [ha] at hposts
      cases hposts
  | ok a =>
      cases hb : files.foundAll toLowerCase key.1 v with
      | error e =>
          rw [ha, hb] at hposts
          cases hposts
      | ok b =>
          rw [ha, hb] at hposts
          refine ⟨a, b, (Except.ok.inj hposts).symm, ?_⟩
          cases (files.modify key (PostFiles.setPost bytes)).found toLowerCase (key.1, key.2) <;>
            rfl

/-- What the list makes of the new file. -/
theorem list_setPost (hdirectory : (files.directory key).isSome)
    (hnone : files.postFile key = none)
    (hbefore : files.list toLowerCase localeLE key.1 = .ok before) :
    ∃ a b, (a ++ b).Perm before ∧
      (files.modify key (PostFiles.setPost bytes)).list toLowerCase localeLE key.1 =
        ((files.modify key (PostFiles.setPost bytes)).found toLowerCase key).map fun found =>
          (a ++ (found ++ b)).mergeSort fun p q => localeLE p.createdAt q.createdAt := by
  obtain ⟨_, hslug, hrest⟩ := exists_ok_of_bind hbefore
  obtain ⟨_, hforum, hrest⟩ := exists_ok_of_bind hrest
  obtain ⟨posts, hposts, hsorted⟩ := exists_ok_of_bind hrest
  obtain ⟨a, b, rfl, hnew⟩ : ∃ a b, posts = a ++ b ∧
      (files.modify key (PostFiles.setPost bytes)).foundAll toLowerCase key.1
          (files.entries key.1) =
        ((files.modify key (PostFiles.setPost bytes)).found toLowerCase key).map fun found =>
          a ++ (found ++ b) := foundAll_setPost hdirectory hnone hposts
  refine ⟨a, b, ?_, ?_⟩
  · rw [← Except.ok.inj hsorted]
    exact (List.mergeSort_perm _ _).symm
  · have hentries : (files.modify key (PostFiles.setPost bytes)).entries key.1 =
        files.entries key.1 := by
      rw [BoardFiles.entries, BoardFiles.keys_modify, BoardFiles.entries]
    rw [BoardFiles.list, hslug, checkForum_congr (BoardFiles.room_modify key files _)
      (BoardFiles.boardroom_modify key files _), hforum, hentries, hnew]
    cases (files.modify key (PostFiles.setPost bytes)).found toLowerCase key with
    | error e => rfl
    | ok found => rfl

end Written

end Listing

/-! ## How far a post has got -/

/-- How many bytes have been written. -/
def bytesWritten : List (Event BoardStep) → Nat
  | [] => 0
  | .ran _ (.wroteByte _) :: es => bytesWritten es + 1
  | _ :: es => bytesWritten es

/-- The event neither opens a file nor writes a byte. -/
def IsPlain (e : Event BoardStep) : Prop :=
  (∀ u key, e ≠ .ran u (.opened key)) ∧ ∀ u key, e ≠ .ran u (.wroteByte key)

/-- Of the post there is no more than its directory. -/
structure Unopened (files : BoardFiles) (key : PostKey) (x : Snapshot BoardWorld BoardStep) :
    Prop where
  notOpened : .ran 0 (.opened key) ∉ x.trace
  count : bytesWritten x.trace = 0
  files : x.world.files = files ∨ x.world.files = files.makeDirectory key

/-- The directory of the post is there. -/
structure Prepared (files : BoardFiles) (key : PostKey) (x : Snapshot BoardWorld BoardStep) :
    Prop where
  notOpened : .ran 0 (.opened key) ∉ x.trace
  count : bytesWritten x.trace = 0
  files : x.world.files = files.makeDirectory key

/-- The new file is there, with the first `k` of its bytes. -/
structure Begun (files : BoardFiles) (key : PostKey) (bytes : List Nat) (k : Nat)
    (x : Snapshot BoardWorld BoardStep) : Prop where
  opened : .ran 0 (.opened key) ∈ x.trace
  count : bytesWritten x.trace = k
  le : k ≤ bytes.length
  fresh : files.postFile key = none
  files : x.world.files =
    (files.makeDirectory key).modify key (PostFiles.setPost (bytes.take k))

/-- One post, at some point of its creation. -/
def Posting (files : BoardFiles) (key : PostKey) (bytes : List Nat)
    (x : Snapshot BoardWorld BoardStep) : Prop :=
  Unopened files key x ∨ ∃ k, Begun files key bytes k x

/-- Plain events that leave the files do not falsify the assertion. -/
def Steady (P : Snapshot BoardWorld BoardStep → Prop) : Prop :=
  ∀ e x w, IsPlain e → w.files = x.world.files → P x → P (x.record e w)

/-- The one caller creates the post; nobody else takes a step. -/
def postContract (files : BoardFiles) (key : PostKey) (bytes : List Nat) :
    Contract BoardWorld BoardStep where
  inv := Posting files key bytes
  guar e x w := (∃ l, e = .ran 0 l) ∨ (IsPlain e ∧ w.files = x.world.files)
  allow _ _ := True

section Creation

variable {process : Nat → Nat} {files : BoardFiles} {key : PostKey} {bytes : List Nat} {k : Nat}
  {α : Type} {P : Snapshot BoardWorld BoardStep → Prop} {x : Snapshot BoardWorld BoardStep}
  {e : Event BoardStep} {w : BoardWorld}

abbrev PostSafe (process : Nat → Nat) (files : BoardFiles) (key : PostKey) (bytes : List Nat)
    (Q : α → Snapshot BoardWorld BoardStep → Prop)
    (E : Failure → Snapshot BoardWorld BoardStep → Prop) (p : BoardProg α)
    (P : Snapshot BoardWorld BoardStep → Prop) : Prop :=
  (postContract files key bytes).Safe (boardSystem process) 0 Q E p P

theorem bytesWritten_cons {es : List (Event BoardStep)} (h : IsPlain e) :
    bytesWritten (e :: es) = bytesWritten es := by
  rw [bytesWritten.eq_3]
  intro u key he
  exact h.2 u key he

theorem mem_opened_cons {es : List (Event BoardStep)} (h : IsPlain e) :
    .ran 0 (.opened key) ∈ e :: es ↔ .ran 0 (.opened key) ∈ es := by
  rw [List.mem_cons]
  constructor
  · rintro (rfl | hmem)
    · exact (h.1 0 key rfl).elim
    · exact hmem
  · exact .inr

theorem unopened_steady : Steady (Unopened files key) := by
  intro e x w he hfiles h
  refine ⟨?_, (bytesWritten_cons he).trans h.count, ?_⟩
  · rw [Snapshot.record_trace, mem_opened_cons he]
    exact h.notOpened
  · rw [Snapshot.record_world, hfiles]
    exact h.files

theorem prepared_steady : Steady (Prepared files key) := by
  intro e x w he hfiles h
  refine ⟨?_, (bytesWritten_cons he).trans h.count, hfiles.trans h.files⟩
  rw [Snapshot.record_trace, mem_opened_cons he]
  exact h.notOpened

theorem begun_steady : Steady (Begun files key bytes k) := by
  intro e x w he hfiles h
  exact ⟨(mem_opened_cons he).mpr h.opened, (bytesWritten_cons he).trans h.count, h.le, h.fresh,
    hfiles.trans h.files⟩

theorem posting_steady : Steady (Posting files key bytes) := by
  rintro e x w he hfiles (h | ⟨k, h⟩)
  · exact .inl (unopened_steady e x w he hfiles h)
  · exact .inr ⟨k, begun_steady e x w he hfiles h⟩

theorem Prepared.unopened (h : Prepared files key x) : Unopened files key x :=
  ⟨h.notOpened, h.count, .inr h.files⟩

theorem Steady.stable (h : Steady P) :
    (postContract files key bytes).Stable (boardSystem process) 0 P := by
  rintro e x w hforeign - - (⟨l, rfl⟩ | ⟨hplain, hfiles⟩) hx
  · exact (hforeign rfl).elim
  · exact h e x w hplain hfiles hx

theorem isPlain_failed (l : BoardStep) : IsPlain (.failed 0 l) :=
  ⟨fun _ _ h => (nomatch h), fun _ _ h => (nomatch h)⟩

/-- A step of the one caller. -/
theorem step_posting {label : BoardWorld → BoardStep} {ready : BoardWorld → Bool}
    {effect : BoardWorld → BoardWorld} {result : BoardWorld → Except Failure α}
    {Q : α → Snapshot BoardWorld BoardStep → Prop} (hP : Steady P)
    (hinv : ∀ x, P x → Posting files key bytes
      (x.record (.ran 0 (label x.world)) (effect x.world)))
    (hok : ∀ x a, P x → result x.world = .ok a →
      Q a (x.record (.ran 0 (label x.world)) (effect x.world))) :
    PostSafe process files key bytes Q (fun _ _ => True) (.action label ready effect result) P := by
  refine .action hP.stable (fun x _ hp _ _ => ⟨hinv x hp, .inl ⟨_, rfl⟩⟩)
    (fun x a _ hp _ _ ha => hok x a hp ha) (fun _ _ _ _ _ _ _ => trivial)
    fun x _ hx _ _ _ => ⟨⟨?_, .inr ⟨isPlain_failed _, rfl⟩⟩, trivial⟩
  exact posting_steady _ x x.world (isPlain_failed _) rfl hx

/-- A plain step that leaves the files. -/
theorem plain_posting {label : BoardWorld → BoardStep} {ready : BoardWorld → Bool}
    {effect : BoardWorld → BoardWorld} {result : BoardWorld → Except Failure α}
    (hP : Steady P) (hlabel : ∀ w, IsPlain (.ran 0 (label w)))
    (hfiles : ∀ w, (effect w).files = w.files) :
    PostSafe process files key bytes (fun _ => P) (fun _ => P)
      (.action label ready effect result) P := by
  have hkeeps (l : BoardStep) (x : Snapshot BoardWorld BoardStep)
      (hx : Posting files key bytes x) :
      (postContract files key bytes).Keeps (.failed 0 l) x x.world :=
    ⟨posting_steady _ x x.world (isPlain_failed l) rfl hx, .inr ⟨isPlain_failed l, rfl⟩⟩
  refine .action hP.stable (fun x hx _ _ _ => ?_) (fun x _ _ hp _ _ _ => ?_)
    (fun x _ _ hp _ _ _ => ?_) fun x _ hx hp _ _ => ?_
  · exact ⟨posting_steady _ x _ (hlabel _) (hfiles _) hx, .inl ⟨_, rfl⟩⟩
  · exact hP _ x _ (hlabel _) (hfiles _) hp
  · exact hP _ x _ (hlabel _) (hfiles _) hp
  · exact ⟨hkeeps _ x hx, hP _ x _ (isPlain_failed _) rfl hp⟩

theorem change_plain {label : BoardStep} (hP : Steady P) (hlabel : IsPlain (.ran 0 label)) :
    PostSafe process files key bytes (fun _ => P) (fun _ _ => True) (change label id) P :=
  (plain_posting hP (fun _ => hlabel) fun _ => rfl).conseq (fun _ _ h => h) (fun _ _ _ h => h)
    fun _ _ _ _ => trivial

theorem look_plain {label : BoardStep} (hP : Steady P) (hlabel : IsPlain (.ran 0 label))
    (result : BoardFiles → Except Failure α) :
    PostSafe process files key bytes (fun _ => P) (fun _ => P) (look label result) P :=
  plain_posting hP (fun _ => hlabel) fun _ => rfl

theorem assertForumChannel_posting (hP : Steady P) (channelId : String) :
    PostSafe process files key bytes (fun _ => P) (fun _ _ => True)
      (assertForumChannel channelId) P := by
  have hplain (l : BoardStep) (hl : l = .readBoardroom ∨ l = .readRoom) :
      IsPlain (.ran 0 l) := by
    rcases hl with rfl | rfl
    · exact ⟨fun _ _ h => (nomatch h), fun _ _ h => (nomatch h)⟩
    · exact ⟨fun _ _ h => (nomatch h), fun _ _ h => (nomatch h)⟩
  refine Contract.Safe.bind (R := fun _ => P) ?_ fun boardroom =>
    .ofExcept (fun _ _ _ _ h => h) fun _ _ _ _ _ => trivial
  refine Contract.Safe.catchErr (look_plain hP (hplain _ (.inl rfl)) _) fun e => ?_
  by_cases he : e = .notFound
  · rw [if_pos he]
    exact (look_plain hP (hplain _ (.inr rfl)) _).conseq (fun _ _ h => h) (fun _ _ _ h => h)
      fun _ _ _ _ => trivial
  · rw [if_neg he]
    exact fun _ _ _ => trivial

theorem isPlain_directory (key : PostKey) :
    IsPlain (.ran 0 (.madeDirectory key)) ∧ IsPlain (.ran 0 (.chmodDirectory key)) := by
  refine ⟨⟨?_, ?_⟩, ?_, ?_⟩
  all_goals exact fun _ _ h => (nomatch h)

/-- The directory is made, whatever was there. -/
theorem ensureSecureDir_posting (h : ∀ x, P x → Unopened files key x) (hP : Steady P) :
    PostSafe process files key bytes (fun _ => Prepared files key) (fun _ _ => True)
      (ensureSecureDir key) P := by
  have hmade (x : Snapshot BoardWorld BoardStep) (hx : P x) :
      Prepared files key (x.record (.ran 0 (.madeDirectory key))
        { x.world with files := x.world.files.makeDirectory key }) := by
    obtain ⟨hopened, hcount, hfiles⟩ := h x hx
    refine ⟨?_, (bytesWritten_cons (isPlain_directory key).1).trans hcount, ?_⟩
    · rw [Snapshot.record_trace, mem_opened_cons (isPlain_directory key).1]
      exact hopened
    · rw [Snapshot.record_world]
      rcases hfiles with hfiles | hfiles
      · rw [hfiles]
      · rw [hfiles]
        exact BoardFiles.makeDirectory_makeDirectory key files
  refine Contract.Safe.bind (R := fun _ => Prepared files key) ?_ fun _ =>
    change_plain prepared_steady (isPlain_directory key).2
  exact step_posting hP (fun x hx => .inl (hmade x hx).unopened) fun x _ hx _ => hmade x hx

/-- The exclusive open finds no file, or fails. -/
theorem openNew_posting :
    PostSafe process files key bytes (fun _ => Begun files key bytes 0) (fun _ _ => True)
      (openNew key) (Prepared files key) := by
  have hbegun (x : Snapshot BoardWorld BoardStep) (hx : Prepared files key x)
      (hnone : (x.world.files.postFile key).isSome = false) :
      Begun files key bytes 0 (x.record (.ran 0 (.opened key))
        { x.world with files := x.world.files.modify key (PostFiles.setPost []) }) := by
    refine ⟨List.mem_cons_self, hx.count, Nat.zero_le _, ?_, ?_⟩
    · rw [hx.files, BoardFiles.postFile_makeDirectory] at hnone
      simpa using hnone
    · rw [Snapshot.record_world, hx.files]
      rfl
  refine step_posting prepared_steady (fun x hx => ?_) fun x _ hx hok => ?_
  · cases hnone : (x.world.files.postFile key).isSome with
    | true =>
        refine .inl (unopened_steady _ x _ ?_ rfl hx.unopened)
        exact ⟨fun _ _ h => (nomatch h), fun _ _ h => (nomatch h)⟩
    | false => exact .inr ⟨0, hbegun x hx hnone⟩
  · cases hnone : (x.world.files.postFile key).isSome with
    | true =>
        simp only [hnone, if_true] at hok
        cases hok
    | false =>
        simp only [Bool.false_eq_true, if_false]
        exact hbegun x hx hnone

/-- One byte more. -/
theorem Begun.next {byte : Nat} {rest : List Nat} (h : Begun files key bytes k x)
    (hrest : bytes.drop k = byte :: rest) :
    Begun files key bytes (k + 1) (x.record (.ran 0 (.wroteByte key))
      { x.world with files := x.world.files.modify key (PostFiles.addToPost byte) }) := by
  have hlt : k < bytes.length := by
    have hlength := congrArg List.length hrest
    rw [List.length_drop, List.length_cons] at hlength
    omega
  have hbyte : bytes.take (k + 1) = bytes.take k ++ [byte] := by
    have hget : bytes[k] = byte := by
      rw [List.drop_eq_getElem_cons hlt] at hrest
      exact (List.cons.inj hrest).1
    rw [List.take_succ_eq_append_getElem hlt, hget]
  refine ⟨List.mem_cons_of_mem _ h.opened, ?_, hlt, h.fresh, ?_⟩
  · rw [Snapshot.record_trace, bytesWritten, h.count]
  · rw [Snapshot.record_world, h.files, BoardFiles.modify_modify, hbyte]
    rfl

/-- The bytes that are left, one after the other. -/
theorem writeBytes_posting (rest : List Nat) (hrest : bytes.drop k = rest) :
    PostSafe process files key bytes (fun _ => Begun files key bytes bytes.length)
      (fun _ _ => True) (writeBytes key PostFiles.addToPost rest) (Begun files key bytes k) := by
  induction rest generalizing k with
  | nil =>
      refine .done fun x _ hx => ?_
      obtain rfl : k = bytes.length := le_antisymm hx.le (List.drop_eq_nil_iff.mp hrest)
      exact hx
  | cons byte rest ih =>
      have hnext : bytes.drop (k + 1) = rest := by
        rw [← List.tail_drop, hrest, List.tail_cons]
      refine Contract.Safe.bind (R := fun _ => Begun files key bytes (k + 1)) ?_
        fun _ => ih hnext
      exact step_posting begun_steady (fun x hx => .inr ⟨k + 1, hx.next hrest⟩)
        fun x _ hx _ => hx.next hrest

/-- The steps of the creation of a file. -/
theorem createSecureFile_posting (post : ForumPost) (hbytes : bytes = JsonFile.bytes post.toJson) :
    PostSafe process files key bytes (fun _ => Begun files key bytes bytes.length)
      (fun _ _ => True) (createSecureFile key post) (Prepared files key) := by
  have hplain (l : BoardStep) (hl : l = .synced post ∨ l = .closed key ∨ l = .chmod key) :
      IsPlain (.ran 0 l) := by
    rcases hl with rfl | rfl | rfl
    all_goals exact ⟨fun _ _ h => (nomatch h), fun _ _ h => (nomatch h)⟩
  refine Contract.Safe.bind (ensureSecureDir_posting (fun _ h => h.unopened) prepared_steady)
    fun _ => Contract.Safe.bind openNew_posting fun _ => ?_
  refine Contract.Safe.bind (R := fun _ => Begun files key bytes bytes.length) ?_ fun _ =>
    change_plain begun_steady (hplain _ (.inr (.inr rfl)))
  refine Contract.Safe.finallyDo (R := fun _ => Begun files key bytes bytes.length)
    (F := fun _ => Posting files key bytes) ?_
    (fun _ => change_plain begun_steady (hplain _ (.inr (.inl rfl))))
    fun _ => (change_plain posting_steady (hplain _ (.inr (.inl rfl)))).conseq
      (fun _ _ h => h) (fun _ _ _ _ => trivial) fun _ _ _ h => h
  refine Contract.Safe.bind (R := fun _ => Begun files key bytes bytes.length) ?_ fun _ => ?_
  · refine (writeBytes_posting _ (hbytes ▸ List.drop_zero)).conseq (fun _ _ h => h)
      (fun _ _ _ h => h) fun _ _ hx _ => hx
  · exact (change_plain begun_steady (hplain _ (.inl rfl))).conseq (fun _ _ h => h)
      (fun _ _ _ h => h) fun _ _ hx _ => hx

/-- The whole call: until it returns, a post that is not there or has been begun. -/
theorem createForumPost_posting {channelId randomId : String} {input : CreateForumPostInput}
    {now : Nat} {post : ForumPost} (hkey : key = (channelId, post.id))
    (hbytes : bytes = JsonFile.bytes post.toJson)
    (hpost : ∀ other, newForumPost toLowerCase channelId input randomId now = .ok other →
      other = post) :
    PostSafe process files key bytes (fun _ => Posting files key bytes) (fun _ _ => True)
      (createForumPost toLowerCase 0 channelId input randomId now) (Unopened files key) := by
  have hplain (l : BoardStep) (hl : l = .acquired ∨ l = .released) : IsPlain (.ran 0 l) := by
    rcases hl with rfl | rfl
    all_goals exact ⟨fun _ _ h => (nomatch h), fun _ _ h => (nomatch h)⟩
  have hlock {P : Snapshot BoardWorld BoardStep → Prop} {l : BoardStep} (hP : Steady P)
      (hl : IsPlain (.ran 0 l)) (ready : BoardWorld → Bool) (holder : Option Nat) :
      PostSafe process files key bytes (fun _ => P) (fun _ _ => True)
        (Prog.action (fun _ => l) ready (fun w => { w with lock := holder })
          fun _ => .ok ()) P := by
    have hsafe : PostSafe process files key bytes (fun _ => P) (fun _ => P)
        (Prog.action (fun _ => l) ready (fun w => { w with lock := holder })
          fun _ => .ok ()) P := plain_posting hP (fun _ => hl) fun _ => rfl
    exact hsafe.conseq (fun _ _ h => h) (fun _ _ _ h => h) fun _ _ _ _ => trivial
  refine .bind_ofExcept (fun _ _ => ?_) fun _ _ _ _ _ => trivial
  refine .bind_ofExcept (fun _ _ => ?_) fun _ _ _ _ _ => trivial
  refine .bind_ofExcept (fun _ _ => ?_) fun _ _ _ _ _ => trivial
  refine .bind_ofExcept (fun _ _ => ?_) fun _ _ _ _ _ => trivial
  refine Contract.Safe.bind (assertForumChannel_posting unopened_steady channelId) fun _ => ?_
  refine .bind_ofExcept (fun other hother => ?_) fun _ _ _ _ _ => trivial
  obtain rfl := hpost other hother
  obtain rfl := hkey
  refine Contract.Safe.bind (hlock unopened_steady (hplain _ (.inl rfl)) _ _) fun _ => ?_
  refine Contract.Safe.finallyDo (R := fun _ => Posting files (channelId, other.id) bytes)
    (F := fun _ => Posting files (channelId, other.id) bytes) ?_
    (fun _ => hlock posting_steady (hplain _ (.inr rfl)) _ _)
    fun _ => (hlock posting_steady (hplain _ (.inr rfl)) _ _).conseq (fun _ _ h => h)
      (fun _ _ _ _ => trivial) fun _ _ _ h => h
  have hwrite : PostSafe process files (channelId, other.id) bytes
      (fun _ => Begun files (channelId, other.id) bytes bytes.length) (fun _ _ => True)
      (writeJsonNew (channelId, other.id) other) (Unopened files (channelId, other.id)) :=
    Contract.Safe.bind (ensureSecureDir_posting (fun _ h => h) unopened_steady)
      fun _ => createSecureFile_posting other hbytes
  refine Contract.Safe.bind (R := fun _ => Posting files (channelId, other.id) bytes) ?_
    fun _ => .ret
  exact hwrite.conseq (fun _ _ h => h) (fun _ _ _ h => .inr ⟨_, h⟩) fun _ _ hx _ => hx

end Creation

/-! ## Runs -/

/-- One call about to create a post. -/
def posting (toLowerCase : String → String) (files : BoardFiles) (channelId : String)
    (input : CreateForumPostInput) (randomId : String) (now : Nat) :
    Config BoardWorld BoardStep Failure ForumPost where
  snap := ⟨⟨files, none⟩, []⟩
  threads := [some (createForumPost toLowerCase 0 channelId input randomId now)]

/-- The list is as it was, or has the complete new post besides. -/
def Intact (toLowerCase : String → String) (localeLE : String → String → Bool)
    (channelId : String) (input : CreateForumPostInput) (randomId : String) (now : Nat)
    (before : List ForumPost) (w : BoardWorld) : Prop :=
  ((listForumPosts toLowerCase localeLE channelId).runAlone w).1 = .ok before ∨
    ∃ post after, newForumPost toLowerCase channelId input randomId now = .ok post ∧
      ((listForumPosts toLowerCase localeLE channelId).runAlone w).1 = .ok after ∧
      after.Perm (post :: before)

/-- The new file has been opened, and lacks more than the line break at its end. -/
def CutShort (toLowerCase : String → String) (channelId : String) (input : CreateForumPostInput)
    (randomId : String) (now : Nat) (es : List (Event BoardStep)) : Prop :=
  ∃ post, newForumPost toLowerCase channelId input randomId now = .ok post ∧
    .ran 0 (.opened (channelId, post.id)) ∈ es ∧
    bytesWritten es + 1 < (JsonFile.bytes post.toJson).length

section Runs

variable {process : Nat → Nat} {files : BoardFiles} {channelId randomId : String}
  {input : CreateForumPostInput} {now : Nat} {post : ForumPost} {before : List ForumPost}
  {c : Config BoardWorld BoardStep Failure ForumPost}

/-- A new post stands under its channel, and passes the check of the readers. -/
theorem newForumPost_ok (h : newForumPost toLowerCase channelId input randomId now = .ok post) :
    post.channelId = channelId ∧ assertValidForumPost toLowerCase post = .ok () := by
  obtain ⟨_, -, h⟩ := exists_ok_of_bind h
  obtain ⟨tags, -, h⟩ := exists_ok_of_bind h
  obtain ⟨_, hvalid, h⟩ := exists_ok_of_bind h
  obtain rfl := Except.ok.inj h
  exact ⟨rfl, hvalid⟩

theorem posting_reachable (hpost : ∀ other,
      newForumPost toLowerCase channelId input randomId now = .ok other → other = post)
    (h : (boardSystem process).Reachable
      (posting toLowerCase files channelId input randomId now) c) :
    Posting files (channelId, post.id) (JsonFile.bytes post.toJson) c.snap := by
  have hunopened : Unopened files (channelId, post.id)
      (posting toLowerCase files channelId input randomId now).snap :=
    ⟨fun hmem => (nomatch hmem), rfl, .inl rfl⟩
  have hstart : (postContract files (channelId, post.id) (JsonFile.bytes post.toJson)).Holds
      (boardSystem process) (posting toLowerCase files channelId input randomId now) := by
    refine ⟨.inl hunopened, fun t p hp => ?_⟩
    obtain ⟨rfl, rfl⟩ : t = 0 ∧
        p = createForumPost toLowerCase 0 channelId input randomId now := by
      cases t with
      | zero => exact ⟨rfl, (Option.some.inj hp).symm⟩
      | succ t => cases hp
    exact .of_safe (createForumPost_posting rfl rfl hpost) (.inl hunopened) hunopened
  refine (Contract.sound hstart ?_ h).1
  intro p damage hdamage x hx _
  obtain rfl := Option.some.inj hdamage
  have hplain : IsPlain (.crashed p) := ⟨fun _ _ h => (nomatch h), fun _ _ h => (nomatch h)⟩
  exact ⟨posting_steady _ x _ hplain rfl hx, .inr ⟨hplain, rfl⟩⟩

/-- The file of a post that has been begun. -/
theorem Begun.postFile {key : PostKey} {bytes : List Nat} {k : Nat}
    {x : Snapshot BoardWorld BoardStep} (h : Begun files key bytes k x) :
    x.world.files.postFile key = some (bytes.take k) := by
  rw [h.files, BoardFiles.postFile, BoardFiles.directory_modify_self,
    BoardFiles.directory_makeDirectory_self]
  rfl

/-- Two posts are not both begun. -/
theorem Begun.key_eq {key other : PostKey} {bytes bytes' : List Nat} {k l : Nat}
    {x : Snapshot BoardWorld BoardStep} (h : Begun files key bytes k x)
    (h' : Begun files other bytes' l x) : key = other := by
  by_contra hne
  have hsome := h.postFile
  rw [h'.files, BoardFiles.postFile, BoardFiles.directory_modify_ne hne,
    BoardFiles.directory_makeDirectory_ne hne, ← BoardFiles.postFile, h.fresh] at hsome
  cases hsome

/-- A call whose record is refused stores nothing: it could be about any post. -/
theorem posting_refused {e : Failure}
    (hnew : newForumPost toLowerCase channelId input randomId now = .error e)
    (h : (boardSystem process).Reachable
      (posting toLowerCase files channelId input randomId now) c) :
    ∃ key, c.snap.world.files = files ∨ c.snap.world.files = files.makeDirectory key := by
  have hany (id : String) := @posting_reachable toLowerCase process files channelId randomId
    input now ⟨forumSchemaVersion, id, channelId, "", "", "", "", [], "", ""⟩ c
    (fun other hother => nomatch hnew.symm.trans hother) h
  rcases hany "a" with hunopened | ⟨k, hbegun⟩
  · exact ⟨_, hunopened.files⟩
  · rcases hany "b" with hunopened | ⟨l, hbegun'⟩
    · exact ⟨_, hunopened.files⟩
    · have hids : "a" = "b" := congrArg Prod.snd (hbegun.key_eq hbegun')
      exact absurd hids (by decide)

/-- The list with a post of which `k` bytes are there. -/
theorem Begun.list {k : Nat} {x : Snapshot BoardWorld BoardStep}
    (h : Begun files (channelId, post.id) (JsonFile.bytes post.toJson) k x)
    (hbefore : files.list toLowerCase localeLE channelId = .ok before) :
    ∃ a b, (a ++ b).Perm before ∧ x.world.files.list toLowerCase localeLE channelId =
      (x.world.files.found toLowerCase (channelId, post.id)).map fun found =>
        (a ++ (found ++ b)).mergeSort fun p q => localeLE p.createdAt q.createdAt := by
  have hdirectory : ((files.makeDirectory (channelId, post.id)).directory
      (channelId, post.id)).isSome := by
    rw [BoardFiles.directory_makeDirectory_self]
    rfl
  have hnone : (files.makeDirectory (channelId, post.id)).postFile (channelId, post.id) = none := by
    rw [BoardFiles.postFile_makeDirectory]
    exact h.fresh
  rw [h.files]
  exact @list_setPost toLowerCase localeLE (files.makeDirectory (channelId, post.id))
    (channelId, post.id) ((JsonFile.bytes post.toJson).take k) before hdirectory hnone
    ((list_makeDirectory _ files channelId).trans hbefore)

/-- A post that lacks more than its line break makes the list fail. -/
theorem list_of_cutShort {k : Nat} {x : Snapshot BoardWorld BoardStep}
    (h : Begun files (channelId, post.id) (JsonFile.bytes post.toJson) k x)
    (hbefore : files.list toLowerCase localeLE channelId = .ok before)
    (hk : k + 1 < (JsonFile.bytes post.toJson).length) :
    x.world.files.list toLowerCase localeLE channelId = .error .malformedJson := by
  obtain ⟨a, b, -, hlist⟩ := h.list hbefore
  have hread : JsonFile.read ((JsonFile.bytes post.toJson).take k) = none :=
    JsonFile.read_take post.valid_toJson hk
  have hpost : x.world.files.readPost (channelId, post.id) = .error .malformedJson := by
    rw [BoardFiles.readPost, h.postFile]
    simp only [hread, Option.bind_none]
  rw [hlist, BoardFiles.found, BoardFiles.validPost, hpost]
  rfl

/-- A post that lacks no more is in the list. -/
theorem list_of_complete {k : Nat} {x : Snapshot BoardWorld BoardStep}
    (h : Begun files (channelId, post.id) (JsonFile.bytes post.toJson) k x)
    (hbefore : files.list toLowerCase localeLE channelId = .ok before)
    (hvalid : assertValidForumPost toLowerCase post = .ok ())
    (hk : (JsonFile.bytes post.toJson).length ≤ k + 1) :
    ∃ after, x.world.files.list toLowerCase localeLE channelId = .ok after ∧
      after.Perm (post :: before) := by
  obtain ⟨a, b, hperm, hlist⟩ := h.list hbefore
  have hread : JsonFile.read ((JsonFile.bytes post.toJson).take k) = some post.toJson := by
    rcases Nat.lt_or_eq_of_le h.le with hlt | rfl
    · exact JsonFile.read_take_all post.valid_toJson (by omega)
    · rw [List.take_length]
      exact JsonFile.read_bytes post.valid_toJson
  have hpost : x.world.files.readPost (channelId, post.id) = .ok post := by
    rw [BoardFiles.readPost, h.postFile]
    simp only [hread, Option.bind_some, ForumPost.ofJson_toJson]
  have hfound : x.world.files.found toLowerCase (channelId, post.id) = .ok [post] := by
    rw [BoardFiles.found, BoardFiles.validPost, hpost]
    simp only [bind, Except.bind, hvalid]
    rfl
  rw [hlist, hfound]
  refine ⟨_, rfl, (List.mergeSort_perm _ _).trans ?_⟩
  exact List.perm_middle.trans (hperm.cons post)

/-- In every run of one call, whatever step fails and whenever it is cut off, the channel's
list is intact exactly when the new file is not cut short. -/
theorem listForumPosts_intact_iff (toLowerCase : String → String)
    (localeLE : String → String → Bool) (process : Nat → Nat) (files : BoardFiles)
    (channelId : String) (input : CreateForumPostInput) (randomId : String) (now : Nat)
    (before : List ForumPost)
    (hbefore : ((listForumPosts toLowerCase localeLE channelId).runAlone ⟨files, none⟩).1 =
      .ok before)
    {c : Config BoardWorld BoardStep Failure ForumPost}
    (h : (boardSystem process).Reachable
      (posting toLowerCase files channelId input randomId now) c) :
    Intact toLowerCase localeLE channelId input randomId now before c.snap.world ↔
      ¬ CutShort toLowerCase channelId input randomId now c.snap.trace := by
  rw [runAlone_listForumPosts] at hbefore
  have hunchanged (key : PostKey)
      (hfiles : c.snap.world.files = files ∨ c.snap.world.files = files.makeDirectory key) :
      Intact toLowerCase localeLE channelId input randomId now before c.snap.world := by
    refine .inl ?_
    rw [runAlone_listForumPosts]
    rcases hfiles with hfiles | hfiles
    · rw [hfiles]
      exact hbefore
    · rw [hfiles, list_makeDirectory]
      exact hbefore
  cases hnew : newForumPost toLowerCase channelId input randomId now with
  | error e =>
      have hnone : ¬ CutShort toLowerCase channelId input randomId now c.snap.trace := by
        rintro ⟨post, hpost, -⟩
        cases hnew.symm.trans hpost
      obtain ⟨key, hfiles⟩ := posting_refused hnew h
      exact ⟨fun _ => hnone, fun _ => hunchanged key hfiles⟩
  | ok post =>
      have hsame (other : ForumPost)
          (hother : newForumPost toLowerCase channelId input randomId now = .ok other) :
          other = post := Except.ok.inj (hother.symm.trans hnew)
      rcases posting_reachable hsame h with hunopened | ⟨k, hbegun⟩
      · refine ⟨fun _ => ?_, fun _ => hunchanged _ hunopened.files⟩
        rintro ⟨other, hother, hopened, -⟩
        rw [hsame other hother] at hopened
        exact hunopened.notOpened hopened
      · by_cases hk : k + 1 < (JsonFile.bytes post.toJson).length
        · have hfails := list_of_cutShort hbegun hbefore hk
          refine ⟨fun hintact => ?_, fun hwhole => ?_⟩
          · simp only [Intact, runAlone_listForumPosts, hfails] at hintact
            rcases hintact with hintact | ⟨_, _, -, hintact, -⟩
            · cases hintact
            · cases hintact
          · exact (hwhole ⟨post, hnew, hbegun.opened, by rw [hbegun.count]; exact hk⟩).elim
        · obtain ⟨after, hafter, hperm⟩ := list_of_complete hbegun hbefore (newForumPost_ok hnew).2
            (Nat.le_of_not_lt hk)
          refine ⟨fun _ => ?_, fun _ => .inr ⟨post, after, hnew, ?_, hperm⟩⟩
          · rintro ⟨other, hother, -, hshort⟩
            rw [hsame other hother, hbegun.count] at hshort
            exact hk hshort
          · rw [runAlone_listForumPosts]
            exact hafter

end Runs

/-- A forum with one post. -/
def ideasForum : BoardFiles where
  room := .absent
  boardroom := .whole ⟨"r", none, [⟨"ideas", "Ideas", "forum", "active", 0⟩], "active", 0, 0,
    false⟩
  forum := OrderedMap.empty.set ("ideas", "first") ⟨some (JsonFile.bytes (ForumPost.toJson
    ⟨1, "first", "ideas", "host", "First", "", "open", [], "", ""⟩)), none⟩

/-- Another post for it. -/
def secondPost : CreateForumPostInput := ⟨"host", "Second", "", some "second", none, none⟩

theorem list_ideasForum :
    ((listForumPosts id (· ≤ ·) "ideas").runAlone ⟨ideasForum, none⟩).1 =
      .ok [⟨1, "first", "ideas", "host", "First", "", "open", [], "", ""⟩] := by
  have hslug : assertSafeSlug "ideas" "channel id" = .ok () := by decide +kernel
  have hforum : ideasForum.checkForum "ideas" = .ok () := by decide +kernel
  have hfound : ideasForum.foundAll id "ideas" (ideasForum.entries "ideas") =
      .ok [⟨1, "first", "ideas", "host", "First", "", "open", [], "", ""⟩] := by
    decide +kernel
  rw [runAlone_listForumPosts, BoardFiles.list, hslug, hforum, hfound]
  exact congrArg Except.ok (List.mergeSort_singleton _)

/-- A creation that comes to its end leaves the list intact, by the general theorem. -/
theorem listForumPosts_intact_iff_second :
    ∃ c, (boardSystem id).Reachable (posting id ideasForum "ideas" secondPost "" 0) c ∧
      (Intact id (· ≤ ·) "ideas" secondPost "" 0
        [⟨1, "first", "ideas", "host", "First", "", "open", [], "", ""⟩] c.snap.world ↔
        ¬ CutShort id "ideas" secondPost "" 0 c.snap.trace) ∧
      (newForumPost id "ideas" secondPost "" 0).toOption = System.returned c 0 ∧
      (System.returned c 0).isSome := by
  have hrun : ((boardSystem id).replay (posting id ideasForum "ideas" secondPost "" 0)
      (List.replicate 257 (.run 0))).map
      (fun c => (System.returned c 0).isSome &&
        (newForumPost id "ideas" secondPost "" 0).toOption == System.returned c 0) =
      some true := by decide +kernel
  obtain ⟨c, hc, hlast⟩ := System.exists_reachable_of_replay hrun
  rw [Bool.and_eq_true, beq_iff_eq] at hlast
  exact ⟨c, hc, listForumPosts_intact_iff id (· ≤ ·) id ideasForum "ideas" secondPost "" 0 _
    list_ideasForum hc, hlast.2, hlast.1⟩

/-- The write of the new post fails behind the opening, and the channel is not listed. -/
theorem listForumPosts_torn :
    ∃ c, (boardSystem id).Reachable (posting id ideasForum "ideas" secondPost "" 0) c ∧
      System.returned c 0 = none ∧
      ¬ Intact id (· ≤ ·) "ideas" secondPost "" 0
        [⟨1, "first", "ideas", "host", "First", "", "open", [], "", ""⟩] c.snap.world := by
  have hrun : ((boardSystem id).replay (posting id ideasForum "ideas" secondPost "" 0)
      (List.replicate 7 (.run 0) ++ [.fail 0 .os, .run 0, .run 0])).map
      (fun c => (System.returned c 0, c.snap.world.files.checkForum "ideas",
        c.snap.world.files.foundAll id "ideas" (c.snap.world.files.entries "ideas"))) =
      some (none, .ok (), .error .malformedJson) := by decide +kernel
  obtain ⟨c, hc, hlast⟩ := System.exists_reachable_of_replay hrun
  obtain ⟨hreturned, hrest⟩ := Prod.mk.inj hlast
  obtain ⟨hforum, hfound⟩ := Prod.mk.inj hrest
  have hslug : assertSafeSlug "ideas" "channel id" = .ok () := by decide +kernel
  refine ⟨c, hc, hreturned, fun hintact => ?_⟩
  simp only [Intact, runAlone_listForumPosts, BoardFiles.list, hslug, hforum, hfound] at hintact
  rcases hintact with hintact | ⟨_, _, -, hintact, -⟩
  · cases hintact
  · cases hintact

end AgentGather.Storage.Boards
