import Mitosis.Lib.Lines

namespace Mitosis
set_option autoImplicit true

namespace Cred

abbrev Text := List Char

/-- A line without the carriage return before its end. -/
def stripCr (line : Text) : Text := if line.getLast? = some '\r' then line.dropLast else line

/-- The lines that `Lines::next_line` returns: each ends with `\n` or `\r\n`, the last one also at
the end of the file. -/
def readLines (content : Text) : List Text :=
  let pieces := content.splitOn '\n'
  pieces.dropLast.map stripCr ++ pieces.getLast?.toList.filter fun line => !line.isEmpty

/-- The credential in a line that starts with the name of the user. -/
def entryOf (user line : Text) : Option (Text × Text) :=
  if (user ++ [':']).isPrefixOf line then Lines.splitOnce ':' line else none

def extractCredential (user : Option Text) (lines : List Text) : Option (Text × Text) :=
  match user with
  | some user => lines.findSome? (entryOf user)
  -- no user specified, just use the first line
  | none => lines.head?.bind (Lines.splitOnce ':')

/-- The lines with the user's credential put in place of the old ones, or behind all lines. -/
def updateLines (username token : Text) (lines : List Text) : List Text :=
  let isUser (line : Text) := (username ++ [':']).isPrefixOf line
  let newLines := lines.map fun line => if isUser line then username ++ ':' :: token else line
  if lines.any isUser then newLines else newLines ++ [username ++ ':' :: token]

/-- The file that is written in place of `file`, if that exists. -/
def modifyOrAppendCredential (file : Option Text) (username token : Text) : Text :=
  match file with
  | some content => ['\n'].intercalate (updateLines username token (readLines content))
  | none => username ++ ':' :: token

variable {user line token : Text}

theorem isPrefixOf_colon : (user ++ [':']).isPrefixOf line = true ↔
    ∃ token, line = user ++ ':' :: token := by
  rw [List.isPrefixOf_iff_prefix]
  constructor
  · rintro ⟨token, rfl⟩
    exact ⟨token, by simp⟩
  · rintro ⟨token, rfl⟩
    exact ⟨token, by simp⟩

theorem entryOf_some (h : ':' ∉ user) (token : Text) :
    entryOf user (user ++ ':' :: token) = some (user, token) := by
  rw [entryOf, if_pos (isPrefixOf_colon.2 ⟨token, rfl⟩)]
  exact Lines.splitOnce_some.2 ⟨rfl, h⟩

theorem entryOf_none (h : ∀ token, line ≠ user ++ ':' :: token) : entryOf user line = none := by
  apply if_neg
  intro hp
  obtain ⟨token, rfl⟩ := isPrefixOf_colon.1 hp
  exact h token rfl

theorem stripCr_snoc (line : Text) (c : Char) :
    stripCr (line ++ [c]) = if c = '\r' then line else line ++ [c] := by
  rw [stripCr, List.getLast?_concat, List.dropLast_concat]
  simp only [Option.some.injEq]

theorem stripCr_colon (user token : Text) :
    stripCr (user ++ ':' :: token) = user ++ ':' :: stripCr token := by
  rcases List.eq_nil_or_concat' token with rfl | ⟨token, c, rfl⟩
  · rw [stripCr_snoc, if_neg (by decide)]
    rfl
  · rw [← List.cons_append, ← List.append_assoc, stripCr_snoc, stripCr_snoc]
    split
    · rfl
    · rw [List.append_assoc, List.cons_append]

theorem stripCr_cases (line : Text) : stripCr line = line ∨ line = stripCr line ++ ['\r'] := by
  rcases List.eq_nil_or_concat' line with rfl | ⟨line, c, rfl⟩
  · exact .inl rfl
  · rw [stripCr_snoc]
    split
    next hc => exact .inr (by rw [hc])
    next => exact .inl rfl

/-- A line that has lost a carriage return holds the same user's credential. -/
theorem entryOf_stripCr (h : ':' ∉ user) (line : Text) : entryOf user (stripCr line) =
    (entryOf user line).map fun e => (e.1, stripCr e.2) := by
  by_cases hl : ∃ token, line = user ++ ':' :: token
  · obtain ⟨token, rfl⟩ := hl
    rw [stripCr_colon, entryOf_some h, entryOf_some h, Option.map_some]
  · have hne : ∀ token, line ≠ user ++ ':' :: token := not_exists.1 hl
    rw [entryOf_none hne, Option.map_none]
    apply entryOf_none
    intro token ht
    rcases stripCr_cases line with heq | heq
    · exact hne token (heq.symm.trans ht)
    · apply hne (token ++ ['\r'])
      rw [heq, ht, List.append_assoc, List.cons_append]

theorem readLines_join {lines : List Text} {last : Text} (h : ∀ line ∈ lines, '\n' ∉ line)
    (hl : '\n' ∉ last) : readLines (['\n'].intercalate (lines ++ [last])) =
      lines.map stripCr ++ [last].filter fun line => !line.isEmpty := by
  have hsplit : (['\n'].intercalate (lines ++ [last])).splitOn '\n' = lines ++ [last] := by
    apply List.splitOn_intercalate
    · intro line hm
      rcases List.mem_append.1 hm with hm | hm
      · exact h line hm
      · rw [List.mem_singleton.1 hm]
        exact hl
    · simp
  rw [readLines, hsplit]
  simp only [List.dropLast_concat, List.getLast?_concat, Option.toList_some]

theorem newline_notMem_readLines (content : Text) : ∀ line ∈ readLines content, '\n' ∉ line := by
  have hpieces : ∀ piece ∈ content.splitOn '\n', '\n' ∉ piece := fun _ =>
    Lines.notMem_of_mem_splitOn
  intro line hm
  rcases List.mem_append.1 hm with hm | hm
  · obtain ⟨piece, hp, rfl⟩ := List.mem_map.1 hm
    have hn := hpieces piece (List.dropLast_subset _ hp)
    rcases stripCr_cases piece with heq | heq
    · rw [heq]
      exact hn
    · intro hc
      apply hn
      rw [heq]
      exact List.mem_append_left _ hc
  · apply hpieces line
    have hm := (List.mem_filter.1 hm).1
    rw [Option.mem_toList] at hm
    exact List.mem_of_getLast? hm

def lookup (file : Option Text) (user : Text) : Option (Text × Text) :=
  file.bind fun content => extractCredential (some user) (readLines content)

structure Name (user : Text) : Prop where
  colon : ':' ∉ user
  newline : '\n' ∉ user

/-- The token without the carriage returns at its end, which the ends of lines can take. -/
def trimCr (token : Text) : Text := token.rdropWhile (· == '\r')

theorem trimCr_stripCr (token : Text) : trimCr (stripCr token) = trimCr token := by
  rcases stripCr_cases token with heq | heq
  · rw [heq]
  · conv_rhs => rw [heq]
    exact (List.rdropWhile_concat_pos _ _ _ rfl).symm

theorem stripCr_of_trimCr (h : trimCr token = token) : stripCr token = token := by
  apply if_neg
  intro hr
  have hlast := List.rdropWhile_eq_self_iff.1 h (List.ne_nil_of_mem (List.mem_of_getLast? hr))
  rw [(List.getLast_eq_iff_getLast?_eq_some _).2 hr] at hlast
  exact hlast rfl

/-- What is found in lines is found again in a file of the lines, at most a carriage return
shorter. -/
theorem lookup_reread (hu : ':' ∉ user) {lines : List Text} (hne : lines ≠ [])
    (h : ∀ line ∈ lines, '\n' ∉ line) :
    lookup (some (['\n'].intercalate lines)) user = lines.findSome? (entryOf user) ∨
    lookup (some (['\n'].intercalate lines)) user =
      (lines.findSome? (entryOf user)).map fun e => (e.1, stripCr e.2) := by
  obtain ⟨init, last, rfl⟩ := (List.eq_nil_or_concat' lines).resolve_left hne
  have hinit : ∀ line ∈ init, '\n' ∉ line := fun line hm => h line (List.mem_append_left _ hm)
  have hlast : '\n' ∉ last := h last (List.mem_append_right _ (List.mem_singleton_self _))
  have hstrip : (init.map stripCr).findSome? (entryOf user) =
      (init.findSome? (entryOf user)).map fun e => (e.1, stripCr e.2) := by
    rw [List.findSome?_map, List.map_findSome?]
    congr 1
    funext line
    exact entryOf_stripCr hu line
  have hend : ([last].filter fun line => !line.isEmpty).findSome? (entryOf user) =
      [last].findSome? (entryOf user) := by
    cases last with
    | nil =>
      have hnil : entryOf user [] = none := entryOf_none fun token h => by simp at h
      simp [hnil]
    | cons c last => rfl
  rw [lookup, Option.bind_some, extractCredential, readLines_join hinit hlast,
    List.findSome?_append, List.findSome?_append, hstrip, hend]
  cases init.findSome? (entryOf user) with
  | none => exact .inl rfl
  | some e => exact .inr rfl

variable {v : Text} {lines : List Text}

theorem updateLines_ne_nil : updateLines user token lines ≠ [] := by
  unfold updateLines
  cases lines with
  | nil => simp
  | cons line lines =>
    dsimp only
    split <;> simp

theorem mem_updateLines (h : line ∈ updateLines user token lines) :
    line ∈ lines ∨ line = user ++ ':' :: token := by
  have hmap : ∀ line' ∈ lines.map fun line =>
      if (user ++ [':']).isPrefixOf line then user ++ ':' :: token else line,
      line' ∈ lines ∨ line' = user ++ ':' :: token := by
    intro line' hm
    obtain ⟨old, hold, rfl⟩ := List.mem_map.1 hm
    split
    · exact .inr rfl
    · exact .inl hold
  rw [updateLines] at h
  split at h
  · exact hmap line h
  · rcases List.mem_append.1 h with h | h
    · exact hmap line h
    · exact .inr (List.mem_singleton.1 h)

/-- The user's credential is found in its first line that is replaced. -/
theorem findSome?_updateLines_self (h : ':' ∉ user) :
    (updateLines user token lines).findSome? (entryOf user) = some (user, token) := by
  have hmap : ∀ lines : List Text, (lines.map fun line =>
      if (user ++ [':']).isPrefixOf line then user ++ ':' :: token else line).findSome?
        (entryOf user) = if lines.any fun line => (user ++ [':']).isPrefixOf line then
          some (user, token) else none := by
    intro lines
    induction lines with
    | nil => rfl
    | cons line lines ih =>
      rw [List.map_cons, List.findSome?_cons, ih, List.any_cons]
      cases hp : (user ++ [':']).isPrefixOf line with
      | true => rw [if_pos rfl, entryOf_some h, Bool.true_or, if_pos rfl]
      | false =>
        have hnone : entryOf user line = none := if_neg (by simp [hp])
        simp [hnone]
  rw [updateLines]
  split
  next hany => rw [hmap, if_pos hany]
  next hany => rw [List.findSome?_append, hmap, if_neg hany, Option.none_or, List.findSome?_singleton,
    entryOf_some h]

theorem findSome?_updateLines_other (hu : ':' ∉ user) (hv : ':' ∉ v) (hne : v ≠ user) :
    (updateLines user token lines).findSome? (entryOf v) = lines.findSome? (entryOf v) := by
  have hnone : ∀ token, entryOf v (user ++ ':' :: token) = none := by
    intro token
    apply entryOf_none
    intro token' heq
    have hother := Lines.splitOnce_some.2 ⟨heq, hv⟩
    have hself : Lines.splitOnce ':' (user ++ ':' :: token) = some (user, token) :=
      Lines.splitOnce_some.2 ⟨rfl, hu⟩
    cases hother.symm.trans hself
    exact hne rfl
  have hmap : (lines.map fun line =>
      if (user ++ [':']).isPrefixOf line then user ++ ':' :: token else line).findSome?
        (entryOf v) = lines.findSome? (entryOf v) := by
    rw [List.findSome?_map]
    congr 1
    funext line
    rw [Function.comp_apply]
    split
    next hp =>
      obtain ⟨old, rfl⟩ := isPrefixOf_colon.1 hp
      rw [hnone, hnone]
    next => rfl
  rw [updateLines]
  split
  · exact hmap
  · rw [List.findSome?_append, hmap, List.findSome?_singleton, hnone, Option.or_none]

variable {file : Option Text} {updates : List (Text × Text)}

/-- The credential is put into the map of the credentials. -/
def put (m : Text → Option (Text × Text)) (e : Text × Text) : Text → Option (Text × Text) :=
  Function.update m e.1 (some e)

def writeAll (file : Option Text) (updates : List (Text × Text)) : Option Text :=
  updates.foldl (fun file e => some (modifyOrAppendCredential file e.1 e.2)) file

structure Fits (e : Text × Text) : Prop where
  name : Name e.1
  newline : '\n' ∉ e.2

/-- The found credential is the expected one, or it lacks carriage returns at the token's end. -/
structure Agrees (found expected : Option (Text × Text)) : Prop where
  trim : found.map (fun e => (e.1, trimCr e.2)) = expected.map fun e => (e.1, trimCr e.2)
  whole : (∀ e, expected = some e → trimCr e.2 = e.2) → found = expected

theorem Agrees.trans {a b c : Option (Text × Text)} (hab : Agrees a b) (hbc : Agrees b c) :
    Agrees a c where
  trim := hab.trim.trans hbc.trim
  whole := by
    intro hw
    have hb := hbc.whole hw
    exact (hab.whole (hb ▸ hw)).trans hb

theorem Agrees.refl (a : Option (Text × Text)) : Agrees a a := ⟨rfl, fun _ => rfl⟩

theorem Agrees.of_stripCr {found expected : Option (Text × Text)}
    (h : found = expected ∨ found = expected.map fun e => (e.1, stripCr e.2)) :
    Agrees found expected := by
  rcases h with rfl | rfl
  · exact .refl _
  · constructor
    · rw [Option.map_map]
      congr 1
      funext e
      exact congrArg (e.1, ·) (trimCr_stripCr e.2)
    · intro hw
      cases expected with
      | none => rfl
      | some e => rw [Option.map_some, stripCr_of_trimCr (hw e rfl)]

theorem lookup_modify (he : Fits (user, token)) (hv : Name v) :
    Agrees (lookup (some (modifyOrAppendCredential file user token)) v)
      (put (lookup file) (user, token) v) := by
  -- a file that does not exist is one without lines
  obtain ⟨lines, hlines, hfile, hlookup⟩ : ∃ lines : List Text,
      (∀ line ∈ lines, '\n' ∉ line) ∧ modifyOrAppendCredential file user token =
        ['\n'].intercalate (updateLines user token lines) ∧
      lookup file v = lines.findSome? (entryOf v) := by
    cases file with
    | none =>
      refine ⟨[], fun _ h => absurd h List.not_mem_nil, ?_, rfl⟩
      simp [modifyOrAppendCredential, updateLines]
    | some content => exact ⟨readLines content, newline_notMem_readLines content, rfl, rfl⟩
  have hnew : ∀ line ∈ updateLines user token lines, '\n' ∉ line := by
    intro line hm
    rcases mem_updateLines hm with hm | rfl
    · exact hlines line hm
    · have hname := he.name.newline
      have htoken := he.newline
      simp_all
  have hread := Agrees.of_stripCr (lookup_reread hv.colon updateLines_ne_nil hnew)
  rw [hfile, put, Function.update_apply]
  split
  next heq =>
    subst heq
    rw [findSome?_updateLines_self hv.colon] at hread
    exact hread
  next hne =>
    rw [findSome?_updateLines_other he.name.colon hv.colon hne, ← hlookup] at hread
    exact hread

/-- Behind every sequence of updates the file is the map of the latest credentials. -/
theorem writeAll_map (hup : ∀ e ∈ updates, Fits e) (hv : Name v) :
    Agrees (lookup (writeAll file updates) v) (updates.foldl put (lookup file) v) := by
  induction updates using List.reverseRecOn with
  | nil => exact .refl _
  | append_singleton updates e ih =>
    have ih := ih fun e he => hup e (List.mem_append_left _ he)
    have he := hup e (List.mem_append_right _ (List.mem_singleton_self e))
    rw [writeAll, List.foldl_append, List.foldl_append]
    apply (lookup_modify he hv).trans
    simp only [List.foldl_cons, List.foldl_nil, put, Function.update_apply]
    split
    · exact .refl _
    · exact ih

namespace CredDemo

def logins : List (Text × Text) := [("alice".toList, "t3".toList), ("bob".toList, "t4".toList)]

end CredDemo

/-- The first line ends with a carriage return, and the last one lacks its end. -/
theorem alice_and_bob :
    (∀ e ∈ CredDemo.logins, Fits e) ∧ Name "bob".toList ∧
      Agrees (lookup (writeAll (some "al:t0\r\nalice:t1\n\nalice:t2".toList) CredDemo.logins)
        "bob".toList) (CredDemo.logins.foldl put
          (lookup (some "al:t0\r\nalice:t1\n\nalice:t2".toList)) "bob".toList) := by
  have hup : ∀ e ∈ CredDemo.logins, Fits e := by
    intro e he
    fin_cases he <;> exact ⟨⟨by decide, by decide⟩, by decide⟩
  have hv : Name "bob".toList := ⟨by decide, by decide⟩
  exact ⟨hup, hv, writeAll_map hup hv⟩

/-- A token that ends with a carriage return is cut when another line follows. -/
theorem carriage_return_lost : ¬ ∀ (content user token : Text), Fits (user, token) →
    lookup (some (modifyOrAppendCredential (some content) user token)) user =
      some (user, token) := by
  intro h
  have h := h "a:0\nb:1".toList ['a'] ['t', '\r'] ⟨⟨by decide, by decide⟩, by decide⟩
  revert h
  decide

end Cred
end Mitosis
