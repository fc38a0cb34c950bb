import Mitosis.Proof.Faultless

namespace Mitosis
set_option autoImplicit true

namespace Storage

/-- The characters that `LIKE` does not take literally. -/
def isMeta (c : Char) : Bool := c = '%' || c = '_' || c = '\\'

theorem like_any {p s : List Char} :
    like ('%' :: p) s = true ↔ ∃ t, t <:+ s ∧ like p t = true := by
  simp only [like, List.any_eq_true, List.mem_tails]

theorem like_char {c : Char} (hc : isMeta c = false) (p s : List Char) :
    like (c :: p) s = true ↔ ∃ t, s = c :: t ∧ like p t = true := by
  simp only [isMeta, Bool.or_eq_false_iff, decide_eq_false_iff_not] at hc
  obtain ⟨⟨hany, hone⟩, hesc⟩ := hc
  cases s with
  | nil => simp [like, hesc]
  | cons d s =>
    have hl : like (c :: p) (d :: s) = (decide (c = d) && like p s) := by
      rw [like]
      · exact hany
      · exact hone
      · exact fun _ _ h _ => hesc h
    rw [hl, Bool.and_eq_true, decide_eq_true_eq]
    constructor
    · rintro ⟨rfl, h⟩
      exact ⟨s, rfl, h⟩
    · rintro ⟨t, ht, h⟩
      obtain ⟨rfl, rfl⟩ := List.cons.inj ht
      exact ⟨rfl, h⟩

theorem like_append {k : List Char} (hk : ∀ c ∈ k, isMeta c = false) (p s : List Char) :
    like (k ++ p) s = true ↔ ∃ t, s = k ++ t ∧ like p t = true := by
  induction k generalizing s with
  | nil =>
    constructor
    · intro h
      exact ⟨s, rfl, h⟩
    · rintro ⟨t, rfl, h⟩
      exact h
  | cons c k ih =>
    have hk' : ∀ d ∈ k, isMeta d = false := fun d hd => hk d (.tail _ hd)
    rw [List.cons_append, like_char (hk c (.head _))]
    constructor
    · rintro ⟨t, rfl, h⟩
      obtain ⟨u, rfl, hu⟩ := (ih hk' t).1 h
      exact ⟨u, rfl, hu⟩
    · rintro ⟨t, rfl, h⟩
      exact ⟨k ++ t, rfl, (ih hk' _).2 ⟨t, rfl, h⟩⟩

theorem like_all (s : List Char) : like ['%'] s = true := like_any.2 ⟨[], List.nil_suffix, rfl⟩

/-- For text without special characters the pattern is the search for a substring. -/
theorem like_infix {k : List Char} (hk : ∀ c ∈ k, isMeta c = false) (s : List Char) :
    like ('%' :: k ++ ['%']) s = true ↔ k <:+: s := by
  rw [List.cons_append, like_any]
  constructor
  · rintro ⟨_, ⟨u, rfl⟩, h⟩
    obtain ⟨t, rfl, -⟩ := (like_append hk _ _).1 h
    exact ⟨u, t, List.append_assoc u k t⟩
  · rintro ⟨u, t, rfl⟩
    have h : like (k ++ ['%']) (k ++ t) = true := (like_append hk _ _).2 ⟨t, rfl, like_all t⟩
    exact ⟨k ++ t, ⟨u, (List.append_assoc u k t).symm⟩, h⟩

/-- A key that the pattern around the text matches. -/
def matching : List Char → List Char
  | [] => []
  | ['\\'] => ['%']
  | '\\' :: c :: k => c :: matching k
  | c :: k => (if c = '%' ∨ c = '_' then 'x' else c) :: matching k

theorem length_matching (k : List Char) : (matching k).length ≤ k.length := by
  fun_induction matching k with
  | case1 => exact Nat.le_refl _
  | case2 => exact Nat.le_refl _
  | case3 c k ih =>
    simp only [List.length_cons]
    omega
  | case4 c k _ _ ih => exact Nat.succ_le_succ ih

theorem not_escape {c : Char} {k : List Char} (h : c = '\\' → k = [] → False)
    (h' : ∀ d k', c = '\\' → k = d :: k' → False) : c ≠ '\\' := by
  intro hc
  cases k with
  | nil => exact h hc rfl
  | cons d k => exact h' d k hc rfl

theorem like_matching (k : List Char) : like (k ++ ['%']) (matching k) = true := by
  fun_induction matching k with
  | case1 => exact like_all []
  | case2 => rfl
  | case3 c k ih => simpa only [List.cons_append, like, decide_true, Bool.true_and] using ih
  | case4 c k h h' ih =>
    by_cases hany : c = '%'
    · subst hany
      exact like_any.2 ⟨matching k, List.suffix_cons _ _, ih⟩
    · by_cases hone : c = '_'
      · subst hone
        exact ih
      · have hc : isMeta c = false := by
          simp only [isMeta, hany, hone, not_escape h h', decide_false, Bool.or_self]
        rw [if_neg (not_or.2 ⟨hany, hone⟩)]
        exact (like_char hc _ _).2 ⟨matching k, rfl, ih⟩

/-- With a special character the key that is matched is another text. -/
theorem plain_of_matching {k : List Char} (h : matching k = k) : ∀ c ∈ k, isMeta c = false := by
  fun_induction matching k with
  | case1 =>
    intro c hc
    cases hc
  | case2 => cases h
  | case3 c k ih =>
    have hl := congrArg List.length h
    have hm := length_matching k
    simp only [List.length_cons] at hl
    omega
  | case4 c k hnil hcons ih =>
    obtain ⟨hc, hk⟩ := List.cons.inj h
    intro d hd
    rcases List.mem_cons.1 hd with rfl | hd
    · split at hc
      next hs =>
        subst hc
        simp at hs
      next hs =>
        obtain ⟨hany, hone⟩ := not_or.1 hs
        simp only [isMeta, hany, hone, not_escape hnil hcons, decide_false, Bool.or_self]
    · exact ih hk d hd

def Store.keysContaining (s : Store) (groupName text : String) : List String :=
  (s.attachments.rows.filter fun e =>
    (s.db.groups.find e.1.1).any (fun g => decide (g.groupName = groupName)) &&
      decide (text.toList <:+: e.1.2.toList)).map fun e => e.1.2

namespace Service

theorem alone_queryAttachments (x : Infra) (hm : alone i (checkMember userId groupName) x =
    some (.ok (), x)) (text : String) :
    alone i (queryAttachmentsByFilter userId groupName ⟨some text, none, none, false⟩) x =
      some (.ok ⟨((x.txns.view i).attachmentInfos groupName text).length,
        (x.txns.view i).attachmentInfos groupName text, groupName⟩, x) := by
  unfold queryAttachmentsByFilter
  rw [alone_bind_ok hm]
  exact alone_bind_ok (alone_select _ x) _

end Service

theorem filterMap_if (p : α → Bool) (f : α → β) (l : List α) :
    (l.filterMap fun a => if p a then some (f a) else none) = (l.filter p).map f := by
  induction l with
  | nil => rfl
  | cons a l ih =>
    cases h : p a with
    | true => simp only [List.filterMap_cons, List.filter_cons, h, if_true, List.map_cons, ih]
    | false => simp only [List.filterMap_cons, List.filter_cons, h, Bool.false_eq_true, if_false, ih]

theorem attachmentInfos_keys (s : Store) (groupName key : String) :
    (s.attachmentInfos groupName key).map AttachmentQueryInfo.key =
      (s.attachments.rows.filter fun e =>
        (s.db.groups.find e.1.1).any (fun g => decide (g.groupName = groupName)) &&
          like ('%' :: key.toList ++ ['%']) e.1.2.toList).map fun e => e.1.2 := by
  rw [Store.attachmentInfos, filterMap_if, List.map_map]
  rfl

structure Literal (text : String) : Prop where
  query : ∀ {i x y userId groupName resp},
    Service.alone i (Service.queryAttachmentsByFilter userId groupName
      ⟨some text, none, none, false⟩) x = some (.ok resp, y) →
    resp.attachments.map AttachmentQueryInfo.key =
      (x.txns.view i).keysContaining groupName text
  download : ∀ {i x y userId groupName downloads},
    Service.alone i (Service.batchDownloadAttachmentsByFilter userId groupName
      (some text) none none) x = some (.ok downloads, y) →
    Service.alone i (Service.generateAttachmentDownloads groupName
      ((x.txns.view i).keysContaining groupName text)) x = some (.ok downloads, y)
  delete : ∀ {i x y userId groupName count},
    Service.alone i (Service.batchDeleteAttachmentsByFilter userId groupName
      (some text) none none) x = some (.ok count, y) →
    ∃ failed, Service.alone i (Service.deleteAttachmentsByKeysInternal userId groupName
      ((x.txns.view i).keysContaining groupName text)) x = some (.ok (count, failed), y)

theorem keys_eq_containing {text : String} (h : ∀ c ∈ text.toList, isMeta c = false) (s : Store)
    (groupName : String) : (s.attachmentInfos groupName text).map AttachmentQueryInfo.key =
      s.keysContaining groupName text := by
  rw [attachmentInfos_keys, Store.keysContaining]
  congr 2
  funext e
  rw [Bool.eq_iff_iff, Bool.and_eq_true, Bool.and_eq_true, decide_eq_true_eq, like_infix h]

theorem alone_of_query {f : AttachmentsQueryResp → Service α}
    (h : Service.alone i (Service.queryAttachmentsByFilter userId groupName
      ⟨some text, none, none, false⟩ >>= f) x = some (.ok a, y)) :
    Service.alone i (f ⟨((x.txns.view i).attachmentInfos groupName text).length,
      (x.txns.view i).attachmentInfos groupName text, groupName⟩) x = some (.ok a, y) := by
  obtain ⟨resp, z, hq, h⟩ := Service.alone_bind_cases_ok h
  rcases Service.alone_checkMember i x userId groupName with ⟨e, hm⟩ | hm
  · rw [Service.queryAttachmentsByFilter, Service.alone_bind_error hm] at hq
    cases hq
  · rw [Service.alone_queryAttachments x hm] at hq
    obtain ⟨⟩ := hq
    exact h

theorem batchDelete_eq (userId : UserId) (groupName : String) (key : Option String)
    (limit offset : Option Nat) :
    Service.batchDeleteAttachmentsByFilter userId groupName key limit offset = (do
      let resp ← Service.queryAttachmentsByFilter userId groupName ⟨key, limit, offset, false⟩
      let (deletedCount, _) ← Service.deleteAttachmentsByKeysInternal userId groupName
        (resp.attachments.map AttachmentQueryInfo.key)
      return deletedCount) := by
  unfold Service.queryAttachmentsByFilter
  rw [Fallible.bind_assoc]
  refine congrArg (Service.checkMember userId groupName >>= ·) (funext fun _ => ?_)
  have hq := Fallible.bind_assoc
    (Service.select (.attachmentInfos groupName (key.getD "") limit offset))
    (fun infos => (pure ⟨infos.length, infos, groupName⟩ : Service AttachmentsQueryResp))
    fun resp => Service.deleteAttachmentsByKeysInternal userId groupName
      (resp.attachments.map AttachmentQueryInfo.key) >>= fun r => pure r.1
  exact hq.symm

theorem literal_of_plain {text : String} (h : ∀ c ∈ text.toList, isMeta c = false) :
    Literal text := by
  constructor
  · intro i x y userId groupName resp hr
    have hq := alone_of_query (f := fun resp => pure resp) (a := resp) (y := y) (by
      rw [Service.alone_bind_ok hr]
      rfl)
    obtain ⟨⟩ := hq
    exact keys_eq_containing h _ _
  · intro i x y userId groupName downloads hr
    have hd := alone_of_query hr
    rwa [keys_eq_containing h] at hd
  · intro i x y userId groupName count hr
    rw [batchDelete_eq] at hr
    have hd := alone_of_query hr
    rw [keys_eq_containing h] at hd
    obtain ⟨⟨n, failed⟩, z, hi, hp⟩ := Service.alone_bind_cases_ok hd
    obtain ⟨⟩ := hp
    exact ⟨failed, hi⟩

namespace FilterDemo

/-- The group `u`, with one attachment. -/
def store (key : String) : Store :=
  { Demo.store with
    attachments := Table.empty.set (1, key) ⟨.noSet, 1, 0, 0⟩
    attachmentIds := Table.empty.set 1 (1, key) }

def infra (key : String) : Infra := ⟨⟨store key, .empty⟩, 2, 7200⟩

end FilterDemo

open FilterDemo in
theorem attachmentInfos_store (key text : String) :
    ((store key).attachmentInfos "u" text).map AttachmentQueryInfo.key =
      if like ('%' :: text.toList ++ ['%']) key.toList then [key] else [] := by
  have hg : ((store key).db.groups.find 1).any (fun g => decide (g.groupName = "u")) = true := rfl
  rw [attachmentInfos_keys]
  change (List.filter _ [((1, key), (⟨.noSet, 1, 0, 0⟩ : Attachment))]).map _ = _
  simp only [List.filter_cons, List.filter_nil, hg, Bool.true_and]
  split <;> rfl

open FilterDemo in
theorem keysContaining_store (key text : String) :
    (store key).keysContaining "u" text = if text.toList <:+: key.toList then [key] else [] := by
  have hg : ((store key).db.groups.find 1).any (fun g => decide (g.groupName = "u")) = true := rfl
  change (List.filter _ [((1, key), (⟨.noSet, 1, 0, 0⟩ : Attachment))]).map _ = _
  simp only [List.filter_cons, List.filter_nil, hg, Bool.true_and, decide_eq_true_eq]
  split <;> rfl

open FilterDemo in
theorem plain_of_literal {text : String} (h : Literal text) :
    ∀ c ∈ text.toList, isMeta c = false := by
  let key := String.ofList (matching text.toList)
  have hkey : key.toList = matching text.toList := String.toList_ofList
  have hm : Service.alone 0 (Service.checkMember 1 "u") (infra key) = some (.ok (), infra key) :=
    rfl
  have hq := h.query (Service.alone_queryAttachments (infra key) hm text)
  have hv : (infra key).txns.view 0 = store key := rfl
  have hl : like ('%' :: text.toList ++ ['%']) key.toList = true := by
    rw [hkey]
    exact like_any.2 ⟨_, List.suffix_refl _, like_matching _⟩
  rw [hv, attachmentInfos_store, if_pos hl, keysContaining_store] at hq
  split at hq
  next hi =>
    rw [hkey] at hi
    exact plain_of_matching (hi.eq_of_length_le (length_matching _)).symm
  next => cases hq

/-- The filter text is taken literally if and only if it has no special character. -/
theorem literal_iff (text : String) : Literal text ↔ ∀ c ∈ text.toList, isMeta c = false :=
  ⟨plain_of_literal, literal_of_plain⟩

open FilterDemo in
/-- The batch deletion for `a_b` deletes the attachment `axb`. -/
theorem underscore_deletes : ¬Literal "a_b" ∧
    (Service.alone 0 (Service.batchDeleteAttachmentsByFilter 1 "u" (some "a_b") none none)
      (infra "axb")).map (fun r => (r.1.toOption, r.2.txns.committed.attachments.rows)) =
        some (some 1, []) := by
  constructor
  · intro h
    have hm := plain_of_literal h '_' (by decide)
    exact absurd hm (by decide)
  · decide +kernel

end Storage
end Mitosis
