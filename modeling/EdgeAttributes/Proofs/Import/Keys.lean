import EdgeAttributes.Proofs.Import.Settings
import EdgeAttributes.Proofs.Text.Trim

namespace EdgeAttributes.ImportConfig

open Text (isBlankText)
open Toml (Statement)

/-- A key as it is kept: not empty, and without a blank at its ends. -/
def IsKey (key : String) : Prop := key ≠ "" ∧ Text.Trimmed key.toList

/-- Entries into which blanks were put: around an entry, or as an entry of their own. -/
inductive Spaced : List String → List String → Prop
  | nothing : Spaced [] []
  | blank {entry : String} {entries spaced : List String} (hentry : isBlankText entry)
    (h : Spaced entries spaced) : Spaced entries (entry :: spaced)
  | entry {front entry back : String} {entries spaced : List String} (hfront : isBlankText front)
    (hback : isBlankText back) (h : Spaced entries spaced) :
    Spaced (entry :: entries) ((front ++ entry ++ back) :: spaced)

variable {front back key entry : String} {entries spaced keys : List String}

theorem trim_padded (hfront : isBlankText front) (hback : isBlankText back) (s : String) :
    Text.trim (front ++ s ++ back) = Text.trim s := by
  rw [Text.trim, String.toList_append, String.toList_append,
    Text.trimChars_append_right (List.all_eq_true.1 hback),
    Text.trimChars_append_left (List.all_eq_true.1 hfront), Text.trim]

theorem trim_of_isBlankText (h : isBlankText entry) : Text.trim entry = "" := by
  have hpadded : Text.trim (entry ++ "" ++ "") = "" := trim_padded h rfl ""
  rwa [String.append_empty, String.append_empty] at hpadded

theorem trim_of_trimmed (h : Text.Trimmed key.toList) : Text.trim key = key := by
  rw [Text.trim, Text.trimChars_of_trimmed h, String.ofList_toList]

/-- What is trimmed off an entry are blanks at its ends, and none is left there. -/
theorem exists_padding (entry : String) : ∃ front back, isBlankText front ∧ isBlankText back ∧
    entry = front ++ Text.trim entry ++ back ∧ Text.Trimmed (Text.trim entry).toList := by
  obtain ⟨front, key, back, hentry, hfront, hback, hkey⟩ := Text.exists_trimmed entry.toList
  have hblankFront : isBlankText (String.ofList front) := by simpa [isBlankText] using hfront
  have hblankBack : isBlankText (String.ofList back) := by simpa [isBlankText] using hback
  have hpadded : entry = String.ofList front ++ String.ofList key ++ String.ofList back := by
    rw [← String.toList_inj, hentry]
    simp
  have htrim : Text.trim entry = String.ofList key := by
    rw [hpadded, trim_padded hblankFront hblankBack, trim_of_trimmed (by simpa using hkey)]
  rw [htrim]
  exact ⟨_, _, hblankFront, hblankBack, hpadded, by simpa using hkey⟩

theorem trimmedKeys_cons_of_eq_empty (h : Text.trim entry = "") :
    trimmedKeys (entry :: entries) = trimmedKeys entries := by
  simp [trimmedKeys, h]

theorem trimmedKeys_cons_of_ne_empty (h : Text.trim entry ≠ "") :
    trimmedKeys (entry :: entries) = Text.trim entry :: trimmedKeys entries := by
  simp [trimmedKeys, h]

theorem trimmedKeys_of_isKey (h : ∀ key ∈ keys, IsKey key) : trimmedKeys keys = keys := by
  induction keys with
  | nil => rfl
  | cons key keys ih =>
    obtain ⟨⟨hne, htrimmed⟩, hkeys⟩ := List.forall_mem_cons.1 h
    have htrim := trim_of_trimmed htrimmed
    rw [trimmedKeys_cons_of_ne_empty (htrim.symm ▸ hne), htrim, ih hkeys]

theorem isKey_of_mem_trimmedKeys (h : key ∈ trimmedKeys entries) : IsKey key := by
  obtain ⟨hmem, hne⟩ := List.mem_filter.1 h
  obtain ⟨entry, -, rfl⟩ := List.mem_map.1 hmem
  obtain ⟨front, back, -, -, -, htrimmed⟩ := exists_padding entry
  exact ⟨by simpa using hne, htrimmed⟩

/-- Blanks that are put in do not show in the keys. -/
theorem Spaced.trimmedKeys_eq (h : Spaced entries spaced) :
    trimmedKeys spaced = trimmedKeys entries := by
  induction h with
  | nothing => rfl
  | blank hentry _ ih => rw [trimmedKeys_cons_of_eq_empty (trim_of_isBlankText hentry), ih]
  | @entry front entry back entries spaced hfront hback h ih =>
    have htrim := trim_padded hfront hback entry
    by_cases hempty : Text.trim entry = ""
    · rw [trimmedKeys_cons_of_eq_empty (htrim.trans hempty),
        trimmedKeys_cons_of_eq_empty hempty, ih]
    · rw [trimmedKeys_cons_of_ne_empty (htrim.trans_ne hempty),
        trimmedKeys_cons_of_ne_empty hempty, htrim, ih]

/-- Entries are their keys with blanks put in. -/
theorem spaced_trimmedKeys (entries : List String) : Spaced (trimmedKeys entries) entries := by
  induction entries with
  | nil => exact .nothing
  | cons entry entries ih =>
    obtain ⟨front, back, hfront, hback, hpadded, -⟩ := exists_padding entry
    by_cases hempty : Text.trim entry = ""
    · rw [trimmedKeys_cons_of_eq_empty hempty]
      refine .blank ?_ ih
      rw [hpadded, hempty, isBlankText, String.append_empty, String.toList_append, List.all_append]
      exact Bool.and_eq_true_iff.2 ⟨hfront, hback⟩
    · have hspaced : Spaced (Text.trim entry :: trimmedKeys entries)
          ((front ++ Text.trim entry ++ back) :: entries) := .entry hfront hback ih
      rwa [← hpadded, ← trimmedKeys_cons_of_ne_empty hempty] at hspaced

/-- Nothing else than the keys can be had from the entries by taking blanks out until none is left
    at an end. -/
theorem trimmedKeys_eq_iff :
    trimmedKeys entries = keys ↔ Spaced keys entries ∧ ∀ key ∈ keys, IsKey key := by
  constructor
  · rintro rfl
    exact ⟨spaced_trimmedKeys entries, fun key => isKey_of_mem_trimmedKeys⟩
  · rintro ⟨hspaced, hkeys⟩
    rw [hspaced.trimmedKeys_eq, trimmedKeys_of_isKey hkeys]

theorem Spaced.comma_notMem (h : Spaced entries spaced)
    (hcomma : ∀ entry ∈ entries, ',' ∉ entry.toList) : ∀ entry ∈ spaced, ',' ∉ entry.toList := by
  have hblank : ∀ {s : String}, isBlankText s → ',' ∉ s.toList := fun hs hmem =>
    absurd (List.all_eq_true.1 hs ',' hmem) (by decide)
  induction h with
  | nothing => exact hcomma
  | blank hentry _ ih => exact List.forall_mem_cons.2 ⟨hblank hentry, ih hcomma⟩
  | entry hfront hback _ ih =>
    obtain ⟨hfirst, hrest⟩ := List.forall_mem_cons.1 hcomma
    refine List.forall_mem_cons.2 ⟨?_, ih hrest⟩
    simp only [String.toList_append, List.mem_append, not_or]
    exact ⟨⟨hblank hfront, hfirst⟩, hblank hback⟩

/-- Entries without a comma come apart again after they are joined. No entries at all are joined
    like a single empty one, which is blank. -/
theorem keysOfText_intercalate (h : ∀ entry ∈ entries, ',' ∉ entry.toList) :
    keysOfText (",".intercalate entries) = trimmedKeys entries := by
  cases entries with
  | nil => rfl
  | cons entry entries =>
    have hsplit : Text.split ',' (",".intercalate (entry :: entries)) = entry :: entries :=
      Text.split_eq_iff.2 ⟨List.cons_ne_nil _ _, h, rfl⟩
    rw [keysOfText, hsplit]

/-- The keys as one text with commas between the entries. -/
def joined (entries : List String) : Statement :=
  .entry ["encoded_values"] (.scalar (.text (",".intercalate entries)))

/-- The keys as a list of the entries. -/
def listed (entries : List String) : Statement := .entry ["encoded_values"] (.texts entries)

namespace Settings

variable {s : Settings}

theorem take?_joined (hopening : s.opening ≠ some .header)
    (hcomma : ∀ entry ∈ entries, ',' ∉ entry.toList) :
    s.take? (joined entries) = s.setKeys? (trimmedKeys entries) := by
  rw [← keysOfText_intercalate hcomma]
  exact if_neg hopening

theorem take?_listed (hopening : s.opening ≠ some .header) :
    s.take? (listed entries) = s.setKeys? (trimmedKeys entries) := if_neg hopening

end Settings

variable {before after : List Statement}

theorem ofStatements?_joined (hheader : .header ["properties"] ∉ before)
    (hcomma : ∀ entry ∈ entries, ',' ∉ entry.toList) :
    ofStatements? (before ++ joined entries :: after) =
      ofStatements? (before ++ listed entries :: after) := by
  rw [ofStatements?, ofStatements?, List.foldlM_append, List.foldlM_append]
  cases hbefore : before.foldlM Settings.take? Settings.empty with
  | none => rfl
  | some s =>
    have hopening := (Settings.keeps_of_foldlM hbefore).opening hheader (by simp [Settings.empty])
    have htake :=
      (Settings.take?_joined hopening hcomma).trans (Settings.take?_listed hopening).symm
    simp [List.foldlM_cons, htake]

theorem encodedValues_of_listed {c : ImportConfig} (hheader : .header ["properties"] ∉ before)
    (hc : ofStatements? (before ++ listed entries :: after) = some c) :
    c.encodedValues = trimmedKeys entries := by
  obtain ⟨s', hfold, hconfig⟩ := Option.bind_eq_some_iff.1 hc
  rw [List.foldlM_append] at hfold
  obtain ⟨s, hbefore, htail⟩ := Option.bind_eq_some_iff.1 hfold
  obtain ⟨t, htake, hafter⟩ := Option.bind_eq_some_iff.1 htail
  have hopening := (Settings.keeps_of_foldlM hbefore).opening hheader (by simp [Settings.empty])
  rw [Settings.take?_listed hopening] at htake
  obtain ⟨-, rfl⟩ := Settings.setKeys?_eq_some htake
  have hkeys := (Settings.keeps_of_foldlM hafter).keys _ rfl
  obtain ⟨keys, hset, hresult⟩ := Option.bind_eq_some_iff.1 hconfig
  obtain rfl := Option.some.inj (hkeys.symm.trans hset)
  exact (congrArg encodedValues (Option.some.inj hresult)).symm

/-- One text with commas and a list of texts give the same keys. They are what is left of the
    entries without the blanks around them and without the blank ones, in their order and with their
    repeats; so blanks that are put in, around entries or as entries, change nothing. Wherever a
    configuration takes its keys, which is not behind the header of the properties, both have the
    same result, and an import has these keys. Nothing else needs to be configured. -/
theorem spellings_agree (hcomma : ∀ entry ∈ entries, ',' ∉ entry.toList) :
    keysOfText (",".intercalate entries) = trimmedKeys entries ∧
    (∀ keys, trimmedKeys entries = keys ↔ Spaced keys entries ∧ ∀ key ∈ keys, IsKey key) ∧
    (∀ spaced, Spaced entries spaced → trimmedKeys spaced = trimmedKeys entries ∧
      keysOfText (",".intercalate spaced) = keysOfText (",".intercalate entries)) ∧
    (∀ before after, .header ["properties"] ∉ before →
      ofStatements? (before ++ joined entries :: after) =
        ofStatements? (before ++ listed entries :: after) ∧
      ∀ c, ofStatements? (before ++ listed entries :: after) = some c →
        c.encodedValues = trimmedKeys entries) ∧
    ofStatements? [listed entries] = some ⟨trimmedKeys entries, .ofList []⟩ := by
  have hjoined := keysOfText_intercalate hcomma
  refine ⟨hjoined, fun keys => trimmedKeys_eq_iff, fun spaced hspaced => ?_,
    fun before after hheader => ⟨ofStatements?_joined hheader hcomma, fun c =>
      encodedValues_of_listed hheader⟩, rfl⟩
  have hsame := hspaced.trimmedKeys_eq
  have hjoinedSpaced := keysOfText_intercalate (hspaced.comma_notMem hcomma)
  exact ⟨hsame, hjoinedSpaced.trans (hsame.trans hjoined.symm)⟩

/-- Blanks of any kind, an entry without a name, and a key that comes twice. -/
theorem spellings_agree_blanks :
    let entries := ["\u3000moped_access\t", "", "road_class ", "moped_access"]
    let fords := Statement.entry ["properties", "block_fords"] (.scalar (.flag true))
    (∀ entry ∈ entries, ',' ∉ entry.toList) ∧
    keysOfText "\u3000moped_access\t,,road_class ,moped_access" =
      ["moped_access", "road_class", "moped_access"] ∧
    keysOfText "\u3000moped_access\t,,road_class ,moped_access, \n" =
      ["moped_access", "road_class", "moped_access"] ∧
    ofStatements? [fords, joined entries] = ofStatements? [fords, listed entries] := by
  intro entries fords
  have hcomma : ∀ entry ∈ entries, ',' ∉ entry.toList := by decide
  have hkeys : trimmedKeys entries = ["moped_access", "road_class", "moped_access"] := by decide
  obtain ⟨hjoined, -, hspaced, hconfig, -⟩ := spellings_agree hcomma
  have hpad : ∀ entry entries spaced, Spaced entries spaced →
      Spaced (entry :: entries) (entry :: spaced) := fun entry entries spaced h => by
    simpa using Spaced.entry (rfl : isBlankText "") (rfl : isBlankText "") h
  have hmore : Spaced entries (entries ++ [" \n"]) :=
    hpad _ _ _ (hpad _ _ _ (hpad _ _ _ (hpad _ _ _ (.blank rfl .nothing))))
  refine ⟨hcomma, hjoined.trans hkeys, (hspaced _ hmore).2.trans (hjoined.trans hkeys), ?_⟩
  exact (hconfig [fords] [] (by simp [fords])).1

end EdgeAttributes.ImportConfig
