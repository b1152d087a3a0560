/-!
# Case tables

How characters change case. Most change to one character at a fixed distance, in runs of neighbours
or of every second code point; a few change to several characters.
-/

namespace Stencil.Text

/-- Runs of characters that map to the characters `shift` further on. Each run has its first and its
last character among the `bounds`, and goes from one to the other in steps of `step`. -/
structure CaseRuns where
  shift : Int
  step : Nat
  bounds : String

/-- The runs that map to one upper-case character. -/
def upperRuns : List CaseRuns :=
  [⟨-32, 1, "azàöøþαρσϋаяａｚ𑣀𑣟𖹠𖹿"⟩, ⟨743, 1, "µµ"⟩, ⟨121, 1, "ÿÿ"⟩,
   ⟨-1, 2, "āįĳķĺňŋŷźžƃƅơƥƴƶǎǜǟǯǹȟȣȳɇɏͱͳϙϯѡҁҋҿӂӎӑԯḁẕạỿⱨⱬⲁⳣⳬⳮꙁꙭꚁꚛꜣꜯꜳꝯꝺꝼꝿꞇꞑꞓꞗꞩꞵꟃꟈꟊꟗꟙ"⟩,
   ⟨-232, 1, "ıı"⟩, ⟨-300, 1, "ſſ"⟩, ⟨195, 1, "ƀƀ"⟩,
   ⟨-1, 1, "ƈƈƌƌƒƒƙƙƨƨƭƭưưƹƹƽƽǅǅǈǈǋǋǲǲǵǵȼȼɂɂͷͷϸϸϻϻↄↄⱡⱡⱳⱳⱶⱶⳳⳳꞌꞌꟑꟑꟶꟶ"⟩, ⟨97, 1, "ƕƕ"⟩, ⟨163, 1, "ƚƚ"⟩,
   ⟨130, 1, "ƞƞͻͽ"⟩, ⟨56, 1, "ƿƿ"⟩, ⟨-2, 1, "ǆǆǉǉǌǌǳǳ"⟩, ⟨-79, 1, "ǝǝ"⟩, ⟨10815, 1, "ȿɀ"⟩,
   ⟨10783, 1, "ɐɐ"⟩, ⟨10780, 1, "ɑɑ"⟩, ⟨10782, 1, "ɒɒ"⟩, ⟨-210, 1, "ɓɓ"⟩, ⟨-206, 1, "ɔɔ"⟩,
   ⟨-205, 1, "ɖɗɠɠ"⟩, ⟨-202, 1, "əə"⟩, ⟨-203, 1, "ɛɛ"⟩, ⟨42319, 1, "ɜɜ"⟩, ⟨42315, 1, "ɡɡ"⟩,
   ⟨-207, 1, "ɣɣ"⟩, ⟨42280, 1, "ɥɥ"⟩, ⟨42308, 1, "ɦɦɪɪ"⟩, ⟨-209, 1, "ɨɨ"⟩, ⟨-211, 1, "ɩɩɯɯ"⟩,
   ⟨10743, 1, "ɫɫ"⟩, ⟨42305, 1, "ɬɬ"⟩, ⟨10749, 1, "ɱɱ"⟩, ⟨-213, 1, "ɲɲ"⟩, ⟨-214, 1, "ɵɵ"⟩,
   ⟨10727, 1, "ɽɽ"⟩, ⟨-218, 1, "ʀʀʃʃʈʈ"⟩, ⟨42307, 1, "ʂʂ"⟩, ⟨42282, 1, "ʇʇ"⟩, ⟨-69, 1, "ʉʉ"⟩,
   ⟨-217, 1, "ʊʋ"⟩, ⟨-71, 1, "ʌʌ"⟩, ⟨-219, 1, "ʒʒ"⟩, ⟨42261, 1, "ʝʝ"⟩, ⟨42258, 1, "ʞʞ"⟩,
   ⟨84, 1, "ͅͅ"⟩, ⟨-38, 1, "άά"⟩, ⟨-37, 1, "έί"⟩, ⟨-31, 1, "ςς"⟩, ⟨-64, 1, "όό𐳀𐳲"⟩, ⟨-63, 1, "ύώ"⟩,
   ⟨-62, 1, "ϐϐ"⟩, ⟨-57, 1, "ϑϑ"⟩, ⟨-47, 1, "ϕϕ"⟩, ⟨-54, 1, "ϖϖ"⟩, ⟨-8, 1, "ϗϗᏸᏽ"⟩, ⟨-86, 1, "ϰϰ"⟩,
   ⟨-80, 1, "ϱϱѐџ"⟩, ⟨7, 1, "ϲϲῥῥ"⟩, ⟨-116, 1, "ϳϳ"⟩, ⟨-96, 1, "ϵϵ"⟩, ⟨-15, 1, "ӏӏ"⟩,
   ⟨-48, 1, "աֆⰰⱟ"⟩, ⟨3008, 1, "აჺჽჿ"⟩, ⟨-6254, 1, "ᲀᲀ"⟩, ⟨-6253, 1, "ᲁᲁ"⟩, ⟨-6244, 1, "ᲂᲂ"⟩,
   ⟨-6242, 1, "ᲃᲄ"⟩, ⟨-6243, 1, "ᲅᲅ"⟩, ⟨-6236, 1, "ᲆᲆ"⟩, ⟨-6181, 1, "ᲇᲇ"⟩, ⟨35266, 1, "ᲈᲈ"⟩,
   ⟨35332, 1, "ᵹᵹ"⟩, ⟨3814, 1, "ᵽᵽ"⟩, ⟨35384, 1, "ᶎᶎ"⟩, ⟨-59, 1, "ẛẛ"⟩,
   ⟨8, 1, "ἀἇἐἕἠἧἰἷὀὅὠὧᾰᾱῐῑῠῡ"⟩, ⟨8, 2, "ὑὗ"⟩, ⟨74, 1, "ὰά"⟩, ⟨86, 1, "ὲή"⟩, ⟨100, 1, "ὶί"⟩,
   ⟨128, 1, "ὸό"⟩, ⟨112, 1, "ὺύ"⟩, ⟨126, 1, "ὼώ"⟩, ⟨-7205, 1, "ιι"⟩, ⟨-28, 1, "ⅎⅎ"⟩, ⟨-16, 1, "ⅰⅿ"⟩,
   ⟨-26, 1, "ⓐⓩ"⟩, ⟨-10795, 1, "ⱥⱥ"⟩, ⟨-10792, 1, "ⱦⱦ"⟩, ⟨-7264, 1, "ⴀⴥⴧⴧⴭⴭ"⟩, ⟨48, 1, "ꞔꞔ"⟩,
   ⟨-928, 1, "ꭓꭓ"⟩, ⟨-38864, 1, "ꭰꮿ"⟩, ⟨-40, 1, "𐐨𐑏𐓘𐓻"⟩, ⟨-39, 1, "𐖗𐖡𐖣𐖱𐖳𐖹𐖻𐖼"⟩, ⟨-34, 1, "𞤢𞥃"⟩]

/-- The characters whose upper case has several characters. -/
def upperExpansions : List (Char × String) :=
  [('ß', "SS"), ('ŉ', "ʼN"), ('ǰ', "J̌"), ('ΐ', "Ϊ́"), ('ΰ', "Ϋ́"), ('և', "ԵՒ"), ('ẖ', "H̱"),
   ('ẗ', "T̈"), ('ẘ', "W̊"), ('ẙ', "Y̊"), ('ẚ', "Aʾ"), ('ὐ', "Υ̓"), ('ὒ', "Υ̓̀"), ('ὔ', "Υ̓́"),
   ('ὖ', "Υ̓͂"), ('ᾀ', "ἈΙ"), ('ᾁ', "ἉΙ"), ('ᾂ', "ἊΙ"), ('ᾃ', "ἋΙ"), ('ᾄ', "ἌΙ"), ('ᾅ', "ἍΙ"),
   ('ᾆ', "ἎΙ"), ('ᾇ', "ἏΙ"), ('ᾈ', "ἈΙ"), ('ᾉ', "ἉΙ"), ('ᾊ', "ἊΙ"), ('ᾋ', "ἋΙ"), ('ᾌ', "ἌΙ"),
   ('ᾍ', "ἍΙ"), ('ᾎ', "ἎΙ"), ('ᾏ', "ἏΙ"), ('ᾐ', "ἨΙ"), ('ᾑ', "ἩΙ"), ('ᾒ', "ἪΙ"), ('ᾓ', "ἫΙ"),
   ('ᾔ', "ἬΙ"), ('ᾕ', "ἭΙ"), ('ᾖ', "ἮΙ"), ('ᾗ', "ἯΙ"), ('ᾘ', "ἨΙ"), ('ᾙ', "ἩΙ"), ('ᾚ', "ἪΙ"),
   ('ᾛ', "ἫΙ"), ('ᾜ', "ἬΙ"), ('ᾝ', "ἭΙ"), ('ᾞ', "ἮΙ"), ('ᾟ', "ἯΙ"), ('ᾠ', "ὨΙ"), ('ᾡ', "ὩΙ"),
   ('ᾢ', "ὪΙ"), ('ᾣ', "ὫΙ"), ('ᾤ', "ὬΙ"), ('ᾥ', "ὭΙ"), ('ᾦ', "ὮΙ"), ('ᾧ', "ὯΙ"), ('ᾨ', "ὨΙ"),
   ('ᾩ', "ὩΙ"), ('ᾪ', "ὪΙ"), ('ᾫ', "ὫΙ"), ('ᾬ', "ὬΙ"), ('ᾭ', "ὭΙ"), ('ᾮ', "ὮΙ"), ('ᾯ', "ὯΙ"),
   ('ᾲ', "ᾺΙ"), ('ᾳ', "ΑΙ"), ('ᾴ', "ΆΙ"), ('ᾶ', "Α͂"), ('ᾷ', "Α͂Ι"), ('ᾼ', "ΑΙ"), ('ῂ', "ῊΙ"),
   ('ῃ', "ΗΙ"), ('ῄ', "ΉΙ"), ('ῆ', "Η͂"), ('ῇ', "Η͂Ι"), ('ῌ', "ΗΙ"), ('ῒ', "Ϊ̀"), ('ΐ', "Ϊ́"),
   ('ῖ', "Ι͂"), ('ῗ', "Ϊ͂"), ('ῢ', "Ϋ̀"), ('ΰ', "Ϋ́"), ('ῤ', "Ρ̓"), ('ῦ', "Υ͂"), ('ῧ', "Ϋ͂"),
   ('ῲ', "ῺΙ"), ('ῳ', "ΩΙ"), ('ῴ', "ΏΙ"), ('ῶ', "Ω͂"), ('ῷ', "Ω͂Ι"), ('ῼ', "ΩΙ"), ('ﬀ', "FF"),
   ('ﬁ', "FI"), ('ﬂ', "FL"), ('ﬃ', "FFI"), ('ﬄ', "FFL"), ('ﬅ', "ST"), ('ﬆ', "ST"), ('ﬓ', "ՄՆ"),
   ('ﬔ', "ՄԵ"), ('ﬕ', "ՄԻ"), ('ﬖ', "ՎՆ"), ('ﬗ', "ՄԽ")]

/-- The runs that map to one lower-case character. -/
def lowerRuns : List CaseRuns :=
  [⟨32, 1, "AZÀÖØÞΑΡΣΫАЯＡＺ𑢠𑢿𖹀𖹟"⟩,
   ⟨1, 2, "ĀĮĲĶĹŇŊŶŹŽƂƄƠƤƳƵǋǛǞǮǲǴǸȞȢȲɆɎͰͲϘϮѠҀҊҾӁӍӐԮḀẔẠỾⱧⱫⲀⳢⳫⳭꙀꙬꚀꚚꜢꜮꜲꝮꝹꝻꝾꞆꞐꞒꞖꞨꞴꟂꟇꟉꟖꟘ"⟩,
   ⟨-121, 1, "ŸŸ"⟩, ⟨210, 1, "ƁƁ"⟩, ⟨206, 1, "ƆƆ"⟩,
   ⟨1, 1, "ƇƇƋƋƑƑƘƘƧƧƬƬƯƯƸƸƼƼǅǅǈǈȻȻɁɁͶͶϷϷϺϺↃↃⱠⱠⱲⱲⱵⱵⳲⳲꞋꞋꟐꟐꟵꟵ"⟩, ⟨205, 1, "ƉƊƓƓ"⟩, ⟨79, 1, "ƎƎ"⟩,
   ⟨202, 1, "ƏƏ"⟩, ⟨203, 1, "ƐƐ"⟩, ⟨207, 1, "ƔƔ"⟩, ⟨211, 1, "ƖƖƜƜ"⟩, ⟨209, 1, "ƗƗ"⟩, ⟨213, 1, "ƝƝ"⟩,
   ⟨214, 1, "ƟƟ"⟩, ⟨218, 1, "ƦƦƩƩƮƮ"⟩, ⟨217, 1, "ƱƲ"⟩, ⟨219, 1, "ƷƷ"⟩, ⟨2, 1, "ǄǄǇǇǊǊǱǱ"⟩,
   ⟨-97, 1, "ǶǶ"⟩, ⟨-56, 1, "ǷǷ"⟩, ⟨-130, 1, "ȠȠϽϿ"⟩, ⟨10795, 1, "ȺȺ"⟩, ⟨-163, 1, "ȽȽ"⟩,
   ⟨10792, 1, "ȾȾ"⟩, ⟨-195, 1, "ɃɃ"⟩, ⟨69, 1, "ɄɄ"⟩, ⟨71, 1, "ɅɅ"⟩, ⟨116, 1, "ͿͿ"⟩, ⟨38, 1, "ΆΆ"⟩,
   ⟨37, 1, "ΈΊ"⟩, ⟨64, 1, "ΌΌ𐲀𐲲"⟩, ⟨63, 1, "ΎΏ"⟩, ⟨8, 1, "ϏϏᏰᏵ"⟩, ⟨-60, 1, "ϴϴ"⟩, ⟨-7, 1, "ϹϹῬῬ"⟩,
   ⟨80, 1, "ЀЏ"⟩, ⟨15, 1, "ӀӀ"⟩, ⟨48, 1, "ԱՖⰀⰯ"⟩, ⟨7264, 1, "ႠჅჇჇჍჍ"⟩, ⟨38864, 1, "ᎠᏯ"⟩,
   ⟨-3008, 1, "ᲐᲺᲽᲿ"⟩, ⟨-7615, 1, "ẞẞ"⟩, ⟨-8, 1, "ἈἏἘἝἨἯἸἿὈὍὨὯᾈᾏᾘᾟᾨᾯᾸᾹῘῙῨῩ"⟩, ⟨-8, 2, "ὙὟ"⟩,
   ⟨-74, 1, "ᾺΆ"⟩, ⟨-9, 1, "ᾼᾼῌῌῼῼ"⟩, ⟨-86, 1, "ῈΉ"⟩, ⟨-100, 1, "ῚΊ"⟩, ⟨-112, 1, "ῪΎ"⟩,
   ⟨-128, 1, "ῸΌ"⟩, ⟨-126, 1, "ῺΏ"⟩, ⟨-7517, 1, "ΩΩ"⟩, ⟨-8383, 1, "KK"⟩, ⟨-8262, 1, "ÅÅ"⟩,
   ⟨28, 1, "ℲℲ"⟩, ⟨16, 1, "ⅠⅯ"⟩, ⟨26, 1, "ⒶⓏ"⟩, ⟨-10743, 1, "ⱢⱢ"⟩, ⟨-3814, 1, "ⱣⱣ"⟩,
   ⟨-10727, 1, "ⱤⱤ"⟩, ⟨-10780, 1, "ⱭⱭ"⟩, ⟨-10749, 1, "ⱮⱮ"⟩, ⟨-10783, 1, "ⱯⱯ"⟩, ⟨-10782, 1, "ⱰⱰ"⟩,
   ⟨-10815, 1, "ⱾⱿ"⟩, ⟨-35332, 1, "ꝽꝽ"⟩, ⟨-42280, 1, "ꞍꞍ"⟩, ⟨-42308, 1, "ꞪꞪꞮꞮ"⟩, ⟨-42319, 1, "ꞫꞫ"⟩,
   ⟨-42315, 1, "ꞬꞬ"⟩, ⟨-42305, 1, "ꞭꞭ"⟩, ⟨-42258, 1, "ꞰꞰ"⟩, ⟨-42282, 1, "ꞱꞱ"⟩, ⟨-42261, 1, "ꞲꞲ"⟩,
   ⟨928, 1, "ꞳꞳ"⟩, ⟨-48, 1, "ꟄꟄ"⟩, ⟨-42307, 1, "ꟅꟅ"⟩, ⟨-35384, 1, "ꟆꟆ"⟩, ⟨40, 1, "𐐀𐐧𐒰𐓓"⟩,
   ⟨39, 1, "𐕰𐕺𐕼𐖊𐖌𐖒𐖔𐖕"⟩, ⟨34, 1, "𞤀𞤡"⟩]

/-- The characters whose lower case has several characters. -/
def lowerExpansions : List (Char × String) :=
  [('İ', "i̇")]

/-- The runs whose title case is one character other than their upper case. -/
def titleRuns : List CaseRuns :=
  [⟨1, 1, "ǄǄǇǇǊǊǱǱ"⟩, ⟨0, 1, "ǅǅǈǈǋǋǲǲაჺჽჿᾈᾏᾘᾟᾨᾯᾼᾼῌῌῼῼ"⟩, ⟨-1, 1, "ǆǆǉǉǌǌǳǳ"⟩, ⟨8, 1, "ᾀᾇᾐᾗᾠᾧ"⟩,
   ⟨9, 1, "ᾳᾳῃῃῳῳ"⟩]

/-- The characters whose title case has several characters other than those of their upper case. -/
def titleExpansions : List (Char × String) :=
  [('ß', "Ss"), ('և', "Եւ"), ('ᾲ', "Ὰͅ"), ('ᾴ', "Άͅ"), ('ᾷ', "ᾼ͂"), ('ῂ', "Ὴͅ"), ('ῄ', "Ήͅ"),
   ('ῇ', "ῌ͂"), ('ῲ', "Ὼͅ"), ('ῴ', "Ώͅ"), ('ῷ', "ῼ͂"), ('ﬀ', "Ff"), ('ﬁ', "Fi"), ('ﬂ', "Fl"),
   ('ﬃ', "Ffi"), ('ﬄ', "Ffl"), ('ﬅ', "St"), ('ﬆ', "St"), ('ﬓ', "Մն"), ('ﬔ', "Մե"), ('ﬕ', "Մի"),
   ('ﬖ', "Վն"), ('ﬗ', "Մխ")]

/-- Where cased characters begin and end: upper case, lower case and title case. -/
def casedTurns : List Nat :=
  [65, 26, 6, 26, 47, 1, 10, 1, 4, 1, 5, 23, 1, 31, 1, 195, 1, 4, 4, 208, 1, 36, 7, 2, 30, 5, 96, 1,
   42, 4, 2, 2, 2, 4, 1, 1, 6, 1, 1, 3, 1, 1, 1, 20, 1, 83, 1, 139, 8, 166, 1, 38, 9, 41, 2839, 38,
   1, 1, 5, 1, 2, 43, 2, 3, 672, 86, 2, 6, 2178, 9, 7, 43, 2, 3, 64, 192, 64, 278, 2, 6, 2, 38, 2,
   6, 2, 8, 1, 1, 1, 1, 1, 1, 1, 31, 2, 53, 1, 7, 1, 1, 3, 3, 1, 7, 3, 4, 2, 6, 4, 13, 5, 3, 1, 7,
   116, 1, 13, 1, 16, 13, 101, 1, 4, 1, 2, 10, 1, 1, 3, 5, 6, 1, 1, 1, 1, 1, 1, 4, 1, 6, 4, 1, 2, 4,
   5, 5, 4, 1, 17, 32, 3, 2, 817, 52, 1814, 229, 6, 4, 3, 2, 12, 38, 1, 1, 5, 1, 30994, 46, 18, 30,
   132, 102, 3, 4, 1, 59, 5, 2, 1, 1, 1, 5, 27, 2, 1, 3, 821, 43, 1, 13, 7, 80, 20288, 7, 12, 5,
   1033, 26, 6, 26, 1189, 80, 96, 36, 4, 36, 116, 11, 1, 15, 1, 7, 1, 2, 1, 11, 1, 15, 1, 7, 1, 2,
   451, 1, 2, 3, 1, 42, 1, 9, 1221, 51, 13, 51, 2989, 64, 21856, 64, 25984, 85, 1, 71, 1, 2, 2, 1,
   2, 2, 2, 4, 1, 12, 1, 1, 1, 7, 1, 65, 1, 4, 2, 8, 1, 7, 1, 28, 1, 4, 1, 5, 1, 1, 3, 7, 1, 340, 2,
   25, 1, 25, 1, 31, 1, 25, 1, 31, 1, 25, 1, 31, 1, 25, 1, 31, 1, 25, 1, 8, 1844, 10, 1, 20, 2529,
   68, 2028, 26, 6, 26, 6, 26]

/-- Where characters begin and end that do not separate the cased characters on their two sides. -/
def caseIgnorableTurns : List Nat :=
  [39, 1, 6, 1, 11, 1, 35, 1, 1, 1, 71, 1, 4, 1, 1, 1, 4, 1, 2, 2, 503, 192, 4, 2, 4, 1, 9, 2, 1, 1,
   251, 7, 207, 1, 5, 1, 49, 45, 1, 1, 1, 2, 1, 2, 1, 1, 44, 1, 11, 6, 10, 11, 1, 1, 35, 1, 10, 21,
   16, 1, 101, 8, 1, 10, 1, 4, 33, 1, 1, 1, 30, 27, 91, 11, 58, 11, 4, 1, 2, 1, 24, 24, 43, 3, 44,
   1, 7, 2, 6, 8, 41, 58, 55, 1, 1, 1, 4, 8, 4, 1, 3, 7, 10, 2, 13, 1, 15, 1, 58, 1, 4, 4, 8, 1, 20,
   2, 26, 1, 2, 2, 57, 1, 4, 2, 4, 2, 2, 3, 3, 1, 30, 2, 3, 1, 11, 2, 57, 1, 4, 5, 1, 2, 4, 1, 20,
   2, 22, 6, 1, 1, 58, 1, 2, 1, 1, 4, 8, 1, 7, 2, 11, 2, 30, 1, 61, 1, 12, 1, 50, 1, 3, 1, 55, 1, 1,
   3, 5, 3, 1, 4, 7, 2, 11, 2, 29, 1, 58, 1, 2, 1, 6, 1, 5, 2, 20, 2, 28, 2, 57, 2, 4, 4, 8, 1, 20,
   2, 29, 1, 72, 1, 7, 3, 1, 1, 90, 1, 2, 7, 11, 9, 98, 1, 2, 9, 9, 1, 1, 6, 74, 2, 27, 1, 1, 1, 1,
   1, 55, 14, 1, 5, 1, 2, 5, 11, 1, 36, 9, 1, 102, 4, 1, 6, 1, 2, 2, 2, 25, 2, 4, 3, 16, 4, 13, 1,
   2, 2, 6, 1, 15, 1, 94, 1, 608, 3, 946, 3, 29, 2, 30, 2, 30, 2, 64, 2, 1, 7, 8, 1, 2, 11, 3, 1, 5,
   1, 45, 5, 51, 1, 65, 2, 34, 1, 118, 3, 4, 2, 9, 1, 6, 3, 219, 2, 2, 1, 58, 1, 1, 7, 1, 1, 1, 1,
   2, 8, 6, 10, 2, 1, 39, 1, 8, 31, 49, 4, 48, 1, 1, 5, 1, 1, 5, 1, 40, 9, 12, 2, 32, 4, 2, 2, 1, 3,
   56, 1, 1, 2, 3, 1, 1, 3, 58, 8, 2, 2, 64, 6, 82, 3, 1, 13, 1, 7, 4, 1, 6, 1, 3, 2, 50, 63, 13, 1,
   34, 101, 445, 1, 1, 3, 11, 3, 13, 3, 13, 3, 13, 2, 12, 5, 8, 2, 10, 1, 2, 1, 2, 5, 49, 5, 1, 10,
   1, 1, 13, 1, 16, 13, 51, 33, 2955, 2, 113, 3, 125, 1, 15, 1, 96, 32, 47, 1, 469, 1, 36, 4, 3, 5,
   5, 1, 93, 6, 93, 3, 28438, 1, 1250, 6, 270, 1, 98, 4, 1, 10, 1, 1, 28, 4, 80, 2, 14, 34, 78, 1,
   23, 3, 103, 3, 3, 2, 8, 1, 3, 1, 4, 1, 25, 2, 5, 1, 151, 2, 26, 18, 13, 1, 38, 8, 25, 11, 46, 3,
   48, 1, 2, 4, 2, 2, 17, 1, 21, 2, 66, 6, 2, 2, 2, 2, 12, 1, 8, 1, 35, 1, 11, 1, 51, 1, 1, 3, 2, 2,
   5, 2, 1, 1, 27, 1, 14, 2, 5, 2, 1, 1, 100, 5, 9, 3, 121, 1, 2, 1, 4, 1, 20272, 1, 147, 17, 573,
   16, 3, 1, 12, 16, 34, 1, 2, 1, 169, 1, 7, 1, 6, 1, 11, 1, 35, 1, 1, 1, 47, 1, 45, 2, 67, 1, 21,
   3, 513, 1, 226, 1, 149, 5, 1029, 6, 1, 42, 1, 9, 582, 3, 1, 2, 5, 4, 40, 3, 4, 1, 165, 2, 573, 4,
   387, 2, 153, 11, 49, 4, 123, 1, 54, 15, 41, 1, 2, 2, 10, 3, 49, 4, 2, 2, 2, 1, 4, 1, 10, 1, 50,
   3, 36, 5, 1, 8, 62, 1, 12, 2, 52, 9, 10, 4, 2, 1, 95, 3, 2, 1, 1, 2, 6, 1, 160, 1, 3, 8, 21, 2,
   57, 2, 3, 1, 37, 7, 3, 5, 195, 8, 2, 3, 1, 1, 23, 1, 84, 6, 1, 1, 4, 2, 1, 2, 238, 4, 6, 2, 1, 2,
   27, 2, 85, 8, 2, 1, 1, 2, 106, 1, 1, 1, 2, 6, 1, 1, 101, 3, 2, 4, 1, 5, 259, 9, 1, 2, 256, 2, 1,
   1, 4, 1, 144, 4, 2, 2, 4, 1, 32, 10, 40, 6, 2, 4, 8, 1, 9, 6, 2, 3, 46, 13, 1, 2, 406, 7, 1, 6,
   1, 1, 82, 22, 2, 7, 1, 2, 1, 2, 122, 6, 3, 1, 1, 2, 1, 7, 1, 1, 72, 2, 3, 1, 1, 1, 347, 2, 5435,
   9, 14007, 5, 59, 7, 9, 4, 1035, 1, 63, 17, 64, 2, 1, 2, 16395, 4, 1, 7, 1, 2, 3230, 2, 1, 4,
   4700, 46, 2, 23, 544, 3, 9, 16, 2, 7, 30, 4, 148, 3, 1979, 55, 4, 50, 8, 1, 14, 1, 22, 5, 1, 15,
   1360, 7, 1, 17, 2, 7, 1, 2, 1, 5, 261, 14, 368, 1, 61, 4, 1504, 7, 109, 8, 2735, 5, 789505, 1,
   30, 96, 128, 240]

end Stencil.Text
