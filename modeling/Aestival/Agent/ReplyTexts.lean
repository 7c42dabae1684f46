import Aestival.Agent.ReplyTargets

/-!
# The text of a reply

`sanitize_reply` counts octets: it copies a content without its NULs, stops after 4096 of them, and
leaves it to `sanitize_utf8` to make a text of what it has. The cut may fall inside a character, and
of a text nothing but the part of this character is lost (`sanitizeReply_longest`).
-/

namespace Aestival

open Bytes

/-- Nothing but octets of the content is copied, and no NUL. -/
theorem sanitizeReply_sublist (content : Bytes) :
    (sanitizeReply content).Sublist ((content.filter (· ≠ 0)).take maxReplyLength) :=
  sanitizeUtf8_sublist _

theorem length_sanitizeReply_le (content : Bytes) :
    (sanitizeReply content).length ≤ maxReplyLength :=
  (sanitizeReply_sublist content).length_le.trans (List.length_take_le _ _)

theorem zero_notMem_sanitizeReply (content : Bytes) : (0 : UInt8) ∉ sanitizeReply content := by
  intro hmem
  have hfiltered := List.mem_of_mem_take ((sanitizeReply_sublist content).subset hmem)
  exact of_decide_eq_true (List.mem_filter.mp hfiltered).2 rfl

/-- What is left of a text is as long as the limit and its characters allow. -/
theorem sanitizeReply_longest {content : Bytes} (h : validUtf8 content = true) :
    LongestText maxReplyLength (content.filter (· ≠ 0)) (sanitizeReply content) := by
  have hfiltered : validUtf8 (content.filter (· ≠ 0)) = true := validUtf8_filter_ne h (by decide)
  obtain ⟨p, r, htake, hlongest, hr⟩ := exists_longestText hfiltered maxReplyLength
  have hreply : sanitizeReply content = p := by
    rw [sanitizeReply, htake, sanitizeUtf8_append hlongest.valid hr]
  rwa [hreply]

/-- **A reply is a clean and bounded prefix of its content.** The text has at most 4096 octets, no
NUL, and is UTF-8; of a content that is UTF-8 it is the longest prefix, NULs apart, that ends
between characters. It is sent once, to the place of the message, unless it is empty. -/
theorem reply_delivers_clean_prefix (delivers : Place → Bytes → Bool) (m : MessageEvent)
    (content : Bytes) :
    (sanitizeReply content).length ≤ 4096 ∧ (0 : UInt8) ∉ sanitizeReply content ∧
      validUtf8 (sanitizeReply content) = true ∧
      (validUtf8 content = true →
        LongestText 4096 (content.filter (· ≠ 0)) (sanitizeReply content)) ∧
      ((contextReply delivers m content).sent = none ↔ sanitizeReply content = []) ∧
      ∀ place text, (contextReply delivers m content).sent = some (place, text) →
        place = placeOf m ∧ text = sanitizeReply content := by
  refine ⟨length_sanitizeReply_le content, zero_notMem_sanitizeReply content,
    validUtf8_sanitizeUtf8 _, sanitizeReply_longest, ?_, ?_⟩
  -- nothing is sent when nothing is left
  · by_cases hempty : sanitizeReply content = []
    · simp [contextReply, hempty]
    · simp [contextReply_sent hempty, hempty]
  · intro place text hsent
    by_cases hempty : sanitizeReply content = []
    · simp [contextReply, hempty] at hsent
    · rw [contextReply_sent hempty] at hsent
      obtain ⟨rfl, rfl⟩ := Prod.mk.inj (Option.some.inj hsent)
      exact ⟨rfl, rfl⟩

/-- A NUL inside the text, and a character of three octets of which the limit leaves two. -/
example : sanitizeUtf8 ([0x61, 0, 0x62, 0xE4, 0xBD, 0xA0].filter (· ≠ 0) |>.take 4) =
    [0x61, 0x62] := by decide

end Aestival
