/-
Names of character references.

Characters stand with all their names. A name that may be used without a semicolon has a star.
-/
import MessageCompiler.Text.Lines

namespace MessageCompiler.Markup

/-- Code points in base sixteen, with a plus sign between two of them, and their names. -/
def entityWords : String := String.join [
  "9 Tab,A NewLine,21 excl,22 QUOT* quot*,23 num,24 dollar,25 percnt,26 AMP* amp*,27 apos,28 lpar,",
  "29 rpar,2A ast midast,2B plus,2C comma,2E period,2F sol,3A colon,3B semi,3C LT* lt*,3C+20D2 ",
  "nvlt,3D equals,3D+20E5 bne,3E GT* gt*,3E+20D2 nvgt,3F quest,40 commat,5B lbrack lsqb,5C bsol,",
  "5D rbrack rsqb,5E Hat,5F UnderBar lowbar,60 DiacriticalGrave grave,66+6A fjlig,7B lbrace lcub,",
  "7C VerticalLine verbar vert,7D rbrace rcub,A0 NonBreakingSpace nbsp*,A1 iexcl*,A2 cent*,A3 ",
  "pound*,A4 curren*,A5 yen*,A6 brvbar*,A7 sect*,A8 Dot DoubleDot die uml*,A9 COPY* copy*,AA ",
  "ordf*,AB laquo*,AC not*,AD shy*,AE REG* circledR reg*,AF macr* strns,B0 deg*,B1 PlusMinus ",
  "plusmn* pm,B2 sup2*,B3 sup3*,B4 DiacriticalAcute acute*,B5 micro*,B6 para*,B7 CenterDot ",
  "centerdot middot*,B8 Cedilla cedil*,B9 sup1*,BA ordm*,BB raquo*,BC frac14*,BD frac12* half,BE ",
  "frac34*,BF iquest*,C0 Agrave*,C1 Aacute*,C2 Acirc*,C3 Atilde*,C4 Auml*,C5 Aring* angst,C6 ",
  "AElig*,C7 Ccedil*,C8 Egrave*,C9 Eacute*,CA Ecirc*,CB Euml*,CC Igrave*,CD Iacute*,CE Icirc*,CF ",
  "Iuml*,D0 ETH*,D1 Ntilde*,D2 Ograve*,D3 Oacute*,D4 Ocirc*,D5 Otilde*,D6 Ouml*,D7 times*,D8 ",
  "Oslash*,D9 Ugrave*,DA Uacute*,DB Ucirc*,DC Uuml*,DD Yacute*,DE THORN*,DF szlig*,E0 agrave*,E1 ",
  "aacute*,E2 acirc*,E3 atilde*,E4 auml*,E5 aring*,E6 aelig*,E7 ccedil*,E8 egrave*,E9 eacute*,EA ",
  "ecirc*,EB euml*,EC igrave*,ED iacute*,EE icirc*,EF iuml*,F0 eth*,F1 ntilde*,F2 ograve*,F3 ",
  "oacute*,F4 ocirc*,F5 otilde*,F6 ouml*,F7 div divide*,F8 oslash*,F9 ugrave*,FA uacute*,FB ",
  "ucirc*,FC uuml*,FD yacute*,FE thorn*,FF yuml*,100 Amacr,101 amacr,102 Abreve,103 abreve,104 ",
  "Aogon,105 aogon,106 Cacute,107 cacute,108 Ccirc,109 ccirc,10A Cdot,10B cdot,10C Ccaron,10D ",
  "ccaron,10E Dcaron,10F dcaron,110 Dstrok,111 dstrok,112 Emacr,113 emacr,116 Edot,117 edot,118 ",
  "Eogon,119 eogon,11A Ecaron,11B ecaron,11C Gcirc,11D gcirc,11E Gbreve,11F gbreve,120 Gdot,121 ",
  "gdot,122 Gcedil,124 Hcirc,125 hcirc,126 Hstrok,127 hstrok,128 Itilde,129 itilde,12A Imacr,12B ",
  "imacr,12E Iogon,12F iogon,130 Idot,131 imath inodot,132 IJlig,133 ijlig,134 Jcirc,135 jcirc,",
  "136 Kcedil,137 kcedil,138 kgreen,139 Lacute,13A lacute,13B Lcedil,13C lcedil,13D Lcaron,13E ",
  "lcaron,13F Lmidot,140 lmidot,141 Lstrok,142 lstrok,143 Nacute,144 nacute,145 Ncedil,146 ncedil,",
  "147 Ncaron,148 ncaron,149 napos,14A ENG,14B eng,14C Omacr,14D omacr,150 Odblac,151 odblac,152 ",
  "OElig,153 oelig,154 Racute,155 racute,156 Rcedil,157 rcedil,158 Rcaron,159 rcaron,15A Sacute,",
  "15B sacute,15C Scirc,15D scirc,15E Scedil,15F scedil,160 Scaron,161 scaron,162 Tcedil,163 ",
  "tcedil,164 Tcaron,165 tcaron,166 Tstrok,167 tstrok,168 Utilde,169 utilde,16A Umacr,16B umacr,",
  "16C Ubreve,16D ubreve,16E Uring,16F uring,170 Udblac,171 udblac,172 Uogon,173 uogon,174 Wcirc,",
  "175 wcirc,176 Ycirc,177 ycirc,178 Yuml,179 Zacute,17A zacute,17B Zdot,17C zdot,17D Zcaron,17E ",
  "zcaron,192 fnof,1B5 imped,1F5 gacute,237 jmath,2C6 circ,2C7 Hacek caron,2D8 Breve breve,2D9 ",
  "DiacriticalDot dot,2DA ring,2DB ogon,2DC DiacriticalTilde tilde,2DD DiacriticalDoubleAcute ",
  "dblac,311 DownBreve,391 Alpha,392 Beta,393 Gamma,394 Delta,395 Epsilon,396 Zeta,397 Eta,398 ",
  "Theta,399 Iota,39A Kappa,39B Lambda,39C Mu,39D Nu,39E Xi,39F Omicron,3A0 Pi,3A1 Rho,3A3 Sigma,",
  "3A4 Tau,3A5 Upsilon,3A6 Phi,3A7 Chi,3A8 Psi,3A9 Omega ohm,3B1 alpha,3B2 beta,3B3 gamma,3B4 ",
  "delta,3B5 epsi epsilon,3B6 zeta,3B7 eta,3B8 theta,3B9 iota,3BA kappa,3BB lambda,3BC mu,3BD nu,",
  "3BE xi,3BF omicron,3C0 pi,3C1 rho,3C2 sigmaf sigmav varsigma,3C3 sigma,3C4 tau,3C5 upsi ",
  "upsilon,3C6 phi,3C7 chi,3C8 psi,3C9 omega,3D1 thetasym thetav vartheta,3D2 Upsi upsih,3D5 phiv ",
  "straightphi varphi,3D6 piv varpi,3DC Gammad,3DD digamma gammad,3F0 kappav varkappa,3F1 rhov ",
  "varrho,3F5 epsiv straightepsilon varepsilon,3F6 backepsilon bepsi,401 IOcy,402 DJcy,403 GJcy,",
  "404 Jukcy,405 DScy,406 Iukcy,407 YIcy,408 Jsercy,409 LJcy,40A NJcy,40B TSHcy,40C KJcy,40E ",
  "Ubrcy,40F DZcy,410 Acy,411 Bcy,412 Vcy,413 Gcy,414 Dcy,415 IEcy,416 ZHcy,417 Zcy,418 Icy,419 ",
  "Jcy,41A Kcy,41B Lcy,41C Mcy,41D Ncy,41E Ocy,41F Pcy,420 Rcy,421 Scy,422 Tcy,423 Ucy,424 Fcy,",
  "425 KHcy,426 TScy,427 CHcy,428 SHcy,429 SHCHcy,42A HARDcy,42B Ycy,42C SOFTcy,42D Ecy,42E YUcy,",
  "42F YAcy,430 acy,431 bcy,432 vcy,433 gcy,434 dcy,435 iecy,436 zhcy,437 zcy,438 icy,439 jcy,43A ",
  "kcy,43B lcy,43C mcy,43D ncy,43E ocy,43F pcy,440 rcy,441 scy,442 tcy,443 ucy,444 fcy,445 khcy,",
  "446 tscy,447 chcy,448 shcy,449 shchcy,44A hardcy,44B ycy,44C softcy,44D ecy,44E yucy,44F yacy,",
  "451 iocy,452 djcy,453 gjcy,454 jukcy,455 dscy,456 iukcy,457 yicy,458 jsercy,459 ljcy,45A njcy,",
  "45B tshcy,45C kjcy,45E ubrcy,45F dzcy,2002 ensp,2003 emsp,2004 emsp13,2005 emsp14,2007 numsp,",
  "2008 puncsp,2009 ThinSpace thinsp,200A VeryThinSpace hairsp,200B NegativeMediumSpace ",
  "NegativeThickSpace NegativeThinSpace NegativeVeryThinSpace ZeroWidthSpace,200C zwnj,200D zwj,",
  "200E lrm,200F rlm,2010 dash hyphen,2013 ndash,2014 mdash,2015 horbar,2016 Verbar Vert,2018 ",
  "OpenCurlyQuote lsquo,2019 CloseCurlyQuote rsquo rsquor,201A lsquor sbquo,201C ",
  "OpenCurlyDoubleQuote ldquo,201D CloseCurlyDoubleQuote rdquo rdquor,201E bdquo ldquor,2020 ",
  "dagger,2021 Dagger ddagger,2022 bull bullet,2025 nldr,2026 hellip mldr,2030 permil,2031 ",
  "pertenk,2032 prime,2033 Prime,2034 tprime,2035 backprime bprime,2039 lsaquo,203A rsaquo,203E ",
  "OverBar oline,2041 caret,2043 hybull,2044 frasl,204F bsemi,2057 qprime,205F MediumSpace,",
  "205F+200A ThickSpace,2060 NoBreak,2061 ApplyFunction af,2062 InvisibleTimes it,2063 ",
  "InvisibleComma ic,20AC euro,20DB TripleDot tdot,20DC DotDot,2102 Copf complexes,2105 incare,",
  "210A gscr,210B HilbertSpace Hscr hamilt,210C Hfr Poincareplane,210D Hopf quaternions,210E ",
  "planckh,210F hbar hslash planck plankv,2110 Iscr imagline,2111 Ifr Im image imagpart,2112 ",
  "Laplacetrf Lscr lagran,2113 ell,2115 Nopf naturals,2116 numero,2117 copysr,2118 weierp wp,2119 ",
  "Popf primes,211A Qopf rationals,211B Rscr realine,211C Re Rfr real realpart,211D Ropf reals,",
  "211E rx,2122 TRADE trade,2124 Zopf integers,2127 mho,2128 Zfr zeetrf,2129 iiota,212C ",
  "Bernoullis Bscr bernou,212D Cayleys Cfr,212F escr,2130 Escr expectation,2131 Fouriertrf Fscr,",
  "2133 Mellintrf Mscr phmmat,2134 order orderof oscr,2135 alefsym aleph,2136 beth,2137 gimel,",
  "2138 daleth,2145 CapitalDifferentialD DD,2146 DifferentialD dd,2147 ExponentialE ee ",
  "exponentiale,2148 ImaginaryI ii,2153 frac13,2154 frac23,2155 frac15,2156 frac25,2157 frac35,",
  "2158 frac45,2159 frac16,215A frac56,215B frac18,215C frac38,215D frac58,215E frac78,2190 ",
  "LeftArrow ShortLeftArrow larr leftarrow slarr,2191 ShortUpArrow UpArrow uarr uparrow,2192 ",
  "RightArrow ShortRightArrow rarr rightarrow srarr,2193 DownArrow ShortDownArrow darr downarrow,",
  "2194 LeftRightArrow harr leftrightarrow,2195 UpDownArrow updownarrow varr,2196 UpperLeftArrow ",
  "nwarr nwarrow,2197 UpperRightArrow nearr nearrow,2198 LowerRightArrow searr searrow,2199 ",
  "LowerLeftArrow swarr swarrow,219A nlarr nleftarrow,219B nrarr nrightarrow,219D rarrw ",
  "rightsquigarrow,219D+338 nrarrw,219E Larr twoheadleftarrow,219F Uarr,21A0 Rarr ",
  "twoheadrightarrow,21A1 Darr,21A2 larrtl leftarrowtail,21A3 rarrtl rightarrowtail,21A4 ",
  "LeftTeeArrow mapstoleft,21A5 UpTeeArrow mapstoup,21A6 RightTeeArrow map mapsto,21A7 ",
  "DownTeeArrow mapstodown,21A9 hookleftarrow larrhk,21AA hookrightarrow rarrhk,21AB larrlp ",
  "looparrowleft,21AC looparrowright rarrlp,21AD harrw leftrightsquigarrow,21AE nharr ",
  "nleftrightarrow,21B0 Lsh lsh,21B1 Rsh rsh,21B2 ldsh,21B3 rdsh,21B5 crarr,21B6 cularr ",
  "curvearrowleft,21B7 curarr curvearrowright,21BA circlearrowleft olarr,21BB circlearrowright ",
  "orarr,21BC LeftVector leftharpoonup lharu,21BD DownLeftVector leftharpoondown lhard,21BE ",
  "RightUpVector uharr upharpoonright,21BF LeftUpVector uharl upharpoonleft,21C0 RightVector ",
  "rharu rightharpoonup,21C1 DownRightVector rhard rightharpoondown,21C2 RightDownVector dharr ",
  "downharpoonright,21C3 LeftDownVector dharl downharpoonleft,21C4 RightArrowLeftArrow ",
  "rightleftarrows rlarr,21C5 UpArrowDownArrow udarr,21C6 LeftArrowRightArrow leftrightarrows ",
  "lrarr,21C7 leftleftarrows llarr,21C8 upuparrows uuarr,21C9 rightrightarrows rrarr,21CA ddarr ",
  "downdownarrows,21CB ReverseEquilibrium leftrightharpoons lrhar,21CC Equilibrium ",
  "rightleftharpoons rlhar,21CD nLeftarrow nlArr,21CE nLeftrightarrow nhArr,21CF nRightarrow ",
  "nrArr,21D0 DoubleLeftArrow Leftarrow lArr,21D1 DoubleUpArrow Uparrow uArr,21D2 ",
  "DoubleRightArrow Implies Rightarrow rArr,21D3 DoubleDownArrow Downarrow dArr,21D4 ",
  "DoubleLeftRightArrow Leftrightarrow hArr iff,21D5 DoubleUpDownArrow Updownarrow vArr,21D6 ",
  "nwArr,21D7 neArr,21D8 seArr,21D9 swArr,21DA Lleftarrow lAarr,21DB Rrightarrow rAarr,21DD ",
  "zigrarr,21E4 LeftArrowBar larrb,21E5 RightArrowBar rarrb,21F5 DownArrowUpArrow duarr,21FD ",
  "loarr,21FE roarr,21FF hoarr,2200 ForAll forall,2201 comp complement,2202 PartialD part,",
  "2202+338 npart,2203 Exists exist,2204 NotExists nexist nexists,2205 empty emptyset emptyv ",
  "varnothing,2207 Del nabla,2208 Element in isin isinv,2209 NotElement notin notinva,220B ",
  "ReverseElement SuchThat ni niv,220C NotReverseElement notni notniva,220F Product prod,2210 ",
  "Coproduct coprod,2211 Sum sum,2212 minus,2213 MinusPlus mnplus mp,2214 dotplus plusdo,2216 ",
  "Backslash setminus setmn smallsetminus ssetmn,2217 lowast,2218 SmallCircle compfn,221A Sqrt ",
  "radic,221D Proportional prop propto varpropto vprop,221E infin,221F angrt,2220 ang angle,",
  "2220+20D2 nang,2221 angmsd measuredangle,2222 angsph,2223 VerticalBar mid shortmid smid,2224 ",
  "NotVerticalBar nmid nshortmid nsmid,2225 DoubleVerticalBar par parallel shortparallel spar,",
  "2226 NotDoubleVerticalBar npar nparallel nshortparallel nspar,2227 and wedge,2228 or vee,2229 ",
  "cap,2229+FE00 caps,222A cup,222A+FE00 cups,222B Integral int,222C Int,222D iiint tint,222E ",
  "ContourIntegral conint oint,222F Conint DoubleContourIntegral,2230 Cconint,2231 cwint,2232 ",
  "ClockwiseContourIntegral cwconint,2233 CounterClockwiseContourIntegral awconint,2234 Therefore ",
  "there4 therefore,2235 Because becaus because,2236 ratio,2237 Colon Proportion,2238 dotminus ",
  "minusd,223A mDDot,223B homtht,223C Tilde sim thicksim thksim,223C+20D2 nvsim,223D backsim bsim,",
  "223D+331 race,223E ac mstpos,223E+333 acE,223F acd,2240 VerticalTilde wr wreath,2241 NotTilde ",
  "nsim,2242 EqualTilde eqsim esim,2242+338 NotEqualTilde nesim,2243 TildeEqual sime simeq,2244 ",
  "NotTildeEqual nsime nsimeq,2245 TildeFullEqual cong,2246 simne,2247 NotTildeFullEqual ncong,",
  "2248 TildeTilde ap approx asymp thickapprox thkap,2249 NotTildeTilde nap napprox,224A ape ",
  "approxeq,224B apid,224B+338 napid,224C backcong bcong,224D CupCap asympeq,224D+20D2 nvap,224E ",
  "Bumpeq HumpDownHump bump,224E+338 NotHumpDownHump nbump,224F HumpEqual bumpe bumpeq,224F+338 ",
  "NotHumpEqual nbumpe,2250 DotEqual doteq esdot,2250+338 nedot,2251 doteqdot eDot,2252 efDot ",
  "fallingdotseq,2253 erDot risingdotseq,2254 Assign colone coloneq,2255 ecolon eqcolon,2256 ecir ",
  "eqcirc,2257 circeq cire,2259 wedgeq,225A veeeq,225C triangleq trie,225F equest questeq,2260 ",
  "NotEqual ne,2261 Congruent equiv,2261+20E5 bnequiv,2262 NotCongruent nequiv,2264 le leq,",
  "2264+20D2 nvle,2265 GreaterEqual ge geq,2265+20D2 nvge,2266 LessFullEqual lE leqq,2266+338 nlE ",
  "nleqq,2267 GreaterFullEqual gE geqq,2267+338 NotGreaterFullEqual ngE ngeqq,2268 lnE lneqq,",
  "2268+FE00 lvertneqq lvnE,2269 gnE gneqq,2269+FE00 gvertneqq gvnE,226A Lt NestedLessLess ll,",
  "226A+338 NotLessLess nLtv,226A+20D2 nLt,226B Gt NestedGreaterGreater gg,226B+338 ",
  "NotGreaterGreater nGtv,226B+20D2 nGt,226C between twixt,226D NotCupCap,226E NotLess nless nlt,",
  "226F NotGreater ngt ngtr,2270 NotLessEqual nle nleq,2271 NotGreaterEqual nge ngeq,2272 ",
  "LessTilde lesssim lsim,2273 GreaterTilde gsim gtrsim,2274 NotLessTilde nlsim,2275 ",
  "NotGreaterTilde ngsim,2276 LessGreater lessgtr lg,2277 GreaterLess gl gtrless,2278 ",
  "NotLessGreater ntlg,2279 NotGreaterLess ntgl,227A Precedes pr prec,227B Succeeds sc succ,227C ",
  "PrecedesSlantEqual prcue preccurlyeq,227D SucceedsSlantEqual sccue succcurlyeq,227E ",
  "PrecedesTilde precsim prsim,227F SucceedsTilde scsim succsim,227F+338 NotSucceedsTilde,2280 ",
  "NotPrecedes npr nprec,2281 NotSucceeds nsc nsucc,2282 sub subset,2282+20D2 NotSubset nsubset ",
  "vnsub,2283 Superset sup supset,2283+20D2 NotSuperset nsupset vnsup,2284 nsub,2285 nsup,2286 ",
  "SubsetEqual sube subseteq,2287 SupersetEqual supe supseteq,2288 NotSubsetEqual nsube nsubseteq,",
  "2289 NotSupersetEqual nsupe nsupseteq,228A subne subsetneq,228A+FE00 varsubsetneq vsubne,228B ",
  "supne supsetneq,228B+FE00 varsupsetneq vsupne,228D cupdot,228E UnionPlus uplus,228F ",
  "SquareSubset sqsub sqsubset,228F+338 NotSquareSubset,2290 SquareSuperset sqsup sqsupset,",
  "2290+338 NotSquareSuperset,2291 SquareSubsetEqual sqsube sqsubseteq,2292 SquareSupersetEqual ",
  "sqsupe sqsupseteq,2293 SquareIntersection sqcap,2293+FE00 sqcaps,2294 SquareUnion sqcup,",
  "2294+FE00 sqcups,2295 CirclePlus oplus,2296 CircleMinus ominus,2297 CircleTimes otimes,2298 ",
  "osol,2299 CircleDot odot,229A circledcirc ocir,229B circledast oast,229D circleddash odash,",
  "229E boxplus plusb,229F boxminus minusb,22A0 boxtimes timesb,22A1 dotsquare sdotb,22A2 ",
  "RightTee vdash,22A3 LeftTee dashv,22A4 DownTee top,22A5 UpTee bot bottom perp,22A7 models,22A8 ",
  "DoubleRightTee vDash,22A9 Vdash,22AA Vvdash,22AB VDash,22AC nvdash,22AD nvDash,22AE nVdash,",
  "22AF nVDash,22B0 prurel,22B2 LeftTriangle vartriangleleft vltri,22B3 RightTriangle ",
  "vartriangleright vrtri,22B4 LeftTriangleEqual ltrie trianglelefteq,22B4+20D2 nvltrie,22B5 ",
  "RightTriangleEqual rtrie trianglerighteq,22B5+20D2 nvrtrie,22B6 origof,22B7 imof,22B8 multimap ",
  "mumap,22B9 hercon,22BA intcal intercal,22BB veebar,22BD barvee,22BE angrtvb,22BF lrtri,22C0 ",
  "Wedge bigwedge xwedge,22C1 Vee bigvee xvee,22C2 Intersection bigcap xcap,22C3 Union bigcup ",
  "xcup,22C4 Diamond diam diamond,22C5 sdot,22C6 Star sstarf,22C7 divideontimes divonx,22C8 ",
  "bowtie,22C9 ltimes,22CA rtimes,22CB leftthreetimes lthree,22CC rightthreetimes rthree,22CD ",
  "backsimeq bsime,22CE curlyvee cuvee,22CF curlywedge cuwed,22D0 Sub Subset,22D1 Sup Supset,22D2 ",
  "Cap,22D3 Cup,22D4 fork pitchfork,22D5 epar,22D6 lessdot ltdot,22D7 gtdot gtrdot,22D8 Ll,",
  "22D8+338 nLl,22D9 Gg ggg,22D9+338 nGg,22DA LessEqualGreater leg lesseqgtr,22DA+FE00 lesg,22DB ",
  "GreaterEqualLess gel gtreqless,22DB+FE00 gesl,22DE cuepr curlyeqprec,22DF cuesc curlyeqsucc,",
  "22E0 NotPrecedesSlantEqual nprcue,22E1 NotSucceedsSlantEqual nsccue,22E2 NotSquareSubsetEqual ",
  "nsqsube,22E3 NotSquareSupersetEqual nsqsupe,22E6 lnsim,22E7 gnsim,22E8 precnsim prnsim,22E9 ",
  "scnsim succnsim,22EA NotLeftTriangle nltri ntriangleleft,22EB NotRightTriangle nrtri ",
  "ntriangleright,22EC NotLeftTriangleEqual nltrie ntrianglelefteq,22ED NotRightTriangleEqual ",
  "nrtrie ntrianglerighteq,22EE vellip,22EF ctdot,22F0 utdot,22F1 dtdot,22F2 disin,22F3 isinsv,",
  "22F4 isins,22F5 isindot,22F5+338 notindot,22F6 notinvc,22F7 notinvb,22F9 isinE,22F9+338 notinE,",
  "22FA nisd,22FB xnis,22FC nis,22FD notnivc,22FE notnivb,2305 barwed barwedge,2306 Barwed ",
  "doublebarwedge,2308 LeftCeiling lceil,2309 RightCeiling rceil,230A LeftFloor lfloor,230B ",
  "RightFloor rfloor,230C drcrop,230D dlcrop,230E urcrop,230F ulcrop,2310 bnot,2312 profline,2313 ",
  "profsurf,2315 telrec,2316 target,231C ulcorn ulcorner,231D urcorn urcorner,231E dlcorn ",
  "llcorner,231F drcorn lrcorner,2322 frown sfrown,2323 smile ssmile,232D cylcty,232E profalar,",
  "2336 topbot,233D ovbar,233F solbar,237C angzarr,23B0 lmoust lmoustache,23B1 rmoust rmoustache,",
  "23B4 OverBracket tbrk,23B5 UnderBracket bbrk,23B6 bbrktbrk,23DC OverParenthesis,23DD ",
  "UnderParenthesis,23DE OverBrace,23DF UnderBrace,23E2 trpezium,23E7 elinters,2423 blank,24C8 ",
  "circledS oS,2500 HorizontalLine boxh,2502 boxv,250C boxdr,2510 boxdl,2514 boxur,2518 boxul,",
  "251C boxvr,2524 boxvl,252C boxhd,2534 boxhu,253C boxvh,2550 boxH,2551 boxV,2552 boxdR,2553 ",
  "boxDr,2554 boxDR,2555 boxdL,2556 boxDl,2557 boxDL,2558 boxuR,2559 boxUr,255A boxUR,255B boxuL,",
  "255C boxUl,255D boxUL,255E boxvR,255F boxVr,2560 boxVR,2561 boxvL,2562 boxVl,2563 boxVL,2564 ",
  "boxHd,2565 boxhD,2566 boxHD,2567 boxHu,2568 boxhU,2569 boxHU,256A boxvH,256B boxVh,256C boxVH,",
  "2580 uhblk,2584 lhblk,2588 block,2591 blk14,2592 blk12,2593 blk34,25A1 Square squ square,25AA ",
  "FilledVerySmallSquare blacksquare squarf squf,25AB EmptyVerySmallSquare,25AD rect,25AE marker,",
  "25B1 fltns,25B3 bigtriangleup xutri,25B4 blacktriangle utrif,25B5 triangle utri,25B8 ",
  "blacktriangleright rtrif,25B9 rtri triangleright,25BD bigtriangledown xdtri,25BE ",
  "blacktriangledown dtrif,25BF dtri triangledown,25C2 blacktriangleleft ltrif,25C3 ltri ",
  "triangleleft,25CA loz lozenge,25CB cir,25EC tridot,25EF bigcirc xcirc,25F8 ultri,25F9 urtri,",
  "25FA lltri,25FB EmptySmallSquare,25FC FilledSmallSquare,2605 bigstar starf,2606 star,260E ",
  "phone,2640 female,2642 male,2660 spades spadesuit,2663 clubs clubsuit,2665 hearts heartsuit,",
  "2666 diamondsuit diams,266A sung,266D flat,266E natur natural,266F sharp,2713 check checkmark,",
  "2717 cross,2720 malt maltese,2736 sext,2758 VerticalSeparator,2772 lbbrk,2773 rbbrk,27C8 ",
  "bsolhsub,27C9 suphsol,27E6 LeftDoubleBracket lobrk,27E7 RightDoubleBracket robrk,27E8 ",
  "LeftAngleBracket lang langle,27E9 RightAngleBracket rang rangle,27EA Lang,27EB Rang,27EC loang,",
  "27ED roang,27F5 LongLeftArrow longleftarrow xlarr,27F6 LongRightArrow longrightarrow xrarr,",
  "27F7 LongLeftRightArrow longleftrightarrow xharr,27F8 DoubleLongLeftArrow Longleftarrow xlArr,",
  "27F9 DoubleLongRightArrow Longrightarrow xrArr,27FA DoubleLongLeftRightArrow ",
  "Longleftrightarrow xhArr,27FC longmapsto xmap,27FF dzigrarr,2902 nvlArr,2903 nvrArr,2904 ",
  "nvHarr,2905 Map,290C lbarr,290D bkarow rbarr,290E lBarr,290F dbkarow rBarr,2910 RBarr drbkarow,",
  "2911 DDotrahd,2912 UpArrowBar,2913 DownArrowBar,2916 Rarrtl,2919 latail,291A ratail,291B ",
  "lAtail,291C rAtail,291D larrfs,291E rarrfs,291F larrbfs,2920 rarrbfs,2923 nwarhk,2924 nearhk,",
  "2925 hksearow searhk,2926 hkswarow swarhk,2927 nwnear,2928 nesear toea,2929 seswar tosa,292A ",
  "swnwar,2933 rarrc,2933+338 nrarrc,2935 cudarrr,2936 ldca,2937 rdca,2938 cudarrl,2939 larrpl,",
  "293C curarrm,293D cularrp,2945 rarrpl,2948 harrcir,2949 Uarrocir,294A lurdshar,294B ldrushar,",
  "294E LeftRightVector,294F RightUpDownVector,2950 DownLeftRightVector,2951 LeftUpDownVector,",
  "2952 LeftVectorBar,2953 RightVectorBar,2954 RightUpVectorBar,2955 RightDownVectorBar,2956 ",
  "DownLeftVectorBar,2957 DownRightVectorBar,2958 LeftUpVectorBar,2959 LeftDownVectorBar,295A ",
  "LeftTeeVector,295B RightTeeVector,295C RightUpTeeVector,295D RightDownTeeVector,295E ",
  "DownLeftTeeVector,295F DownRightTeeVector,2960 LeftUpTeeVector,2961 LeftDownTeeVector,2962 ",
  "lHar,2963 uHar,2964 rHar,2965 dHar,2966 luruhar,2967 ldrdhar,2968 ruluhar,2969 rdldhar,296A ",
  "lharul,296B llhard,296C rharul,296D lrhard,296E UpEquilibrium udhar,296F ReverseUpEquilibrium ",
  "duhar,2970 RoundImplies,2971 erarr,2972 simrarr,2973 larrsim,2974 rarrsim,2975 rarrap,2976 ",
  "ltlarr,2978 gtrarr,2979 subrarr,297B suplarr,297C lfisht,297D rfisht,297E ufisht,297F dfisht,",
  "2985 lopar,2986 ropar,298B lbrke,298C rbrke,298D lbrkslu,298E rbrksld,298F lbrksld,2990 ",
  "rbrkslu,2991 langd,2992 rangd,2993 lparlt,2994 rpargt,2995 gtlPar,2996 ltrPar,299A vzigzag,",
  "299C vangrt,299D angrtvbd,29A4 ange,29A5 range,29A6 dwangle,29A7 uwangle,29A8 angmsdaa,29A9 ",
  "angmsdab,29AA angmsdac,29AB angmsdad,29AC angmsdae,29AD angmsdaf,29AE angmsdag,29AF angmsdah,",
  "29B0 bemptyv,29B1 demptyv,29B2 cemptyv,29B3 raemptyv,29B4 laemptyv,29B5 ohbar,29B6 omid,29B7 ",
  "opar,29B9 operp,29BB olcross,29BC odsold,29BE olcir,29BF ofcir,29C0 olt,29C1 ogt,29C2 cirscir,",
  "29C3 cirE,29C4 solb,29C5 bsolb,29C9 boxbox,29CD trisb,29CE rtriltri,29CF LeftTriangleBar,",
  "29CF+338 NotLeftTriangleBar,29D0 RightTriangleBar,29D0+338 NotRightTriangleBar,29DC iinfin,",
  "29DD infintie,29DE nvinfin,29E3 eparsl,29E4 smeparsl,29E5 eqvparsl,29EB blacklozenge lozf,29F4 ",
  "RuleDelayed,29F6 dsol,2A00 bigodot xodot,2A01 bigoplus xoplus,2A02 bigotimes xotime,2A04 ",
  "biguplus xuplus,2A06 bigsqcup xsqcup,2A0C iiiint qint,2A0D fpartint,2A10 cirfnint,2A11 awint,",
  "2A12 rppolint,2A13 scpolint,2A14 npolint,2A15 pointint,2A16 quatint,2A17 intlarhk,2A22 pluscir,",
  "2A23 plusacir,2A24 simplus,2A25 plusdu,2A26 plussim,2A27 plustwo,2A29 mcomma,2A2A minusdu,2A2D ",
  "loplus,2A2E roplus,2A2F Cross,2A30 timesd,2A31 timesbar,2A33 smashp,2A34 lotimes,2A35 rotimes,",
  "2A36 otimesas,2A37 Otimes,2A38 odiv,2A39 triplus,2A3A triminus,2A3B tritime,2A3C intprod iprod,",
  "2A3F amalg,2A40 capdot,2A42 ncup,2A43 ncap,2A44 capand,2A45 cupor,2A46 cupcap,2A47 capcup,2A48 ",
  "cupbrcap,2A49 capbrcup,2A4A cupcup,2A4B capcap,2A4C ccups,2A4D ccaps,2A50 ccupssm,2A53 And,",
  "2A54 Or,2A55 andand,2A56 oror,2A57 orslope,2A58 andslope,2A5A andv,2A5B orv,2A5C andd,2A5D ord,",
  "2A5F wedbar,2A66 sdote,2A6A simdot,2A6D congdot,2A6D+338 ncongdot,2A6E easter,2A6F apacir,2A70 ",
  "apE,2A70+338 napE,2A71 eplus,2A72 pluse,2A73 Esim,2A74 Colone,2A75 Equal,2A77 ddotseq eDDot,",
  "2A78 equivDD,2A79 ltcir,2A7A gtcir,2A7B ltquest,2A7C gtquest,2A7D LessSlantEqual leqslant les,",
  "2A7D+338 NotLessSlantEqual nleqslant nles,2A7E GreaterSlantEqual geqslant ges,2A7E+338 ",
  "NotGreaterSlantEqual ngeqslant nges,2A7F lesdot,2A80 gesdot,2A81 lesdoto,2A82 gesdoto,2A83 ",
  "lesdotor,2A84 gesdotol,2A85 lap lessapprox,2A86 gap gtrapprox,2A87 lne lneq,2A88 gne gneq,2A89 ",
  "lnap lnapprox,2A8A gnap gnapprox,2A8B lEg lesseqqgtr,2A8C gEl gtreqqless,2A8D lsime,2A8E gsime,",
  "2A8F lsimg,2A90 gsiml,2A91 lgE,2A92 glE,2A93 lesges,2A94 gesles,2A95 els eqslantless,2A96 egs ",
  "eqslantgtr,2A97 elsdot,2A98 egsdot,2A99 el,2A9A eg,2A9D siml,2A9E simg,2A9F simlE,2AA0 simgE,",
  "2AA1 LessLess,2AA1+338 NotNestedLessLess,2AA2 GreaterGreater,2AA2+338 NotNestedGreaterGreater,",
  "2AA4 glj,2AA5 gla,2AA6 ltcc,2AA7 gtcc,2AA8 lescc,2AA9 gescc,2AAA smt,2AAB lat,2AAC smte,",
  "2AAC+FE00 smtes,2AAD late,2AAD+FE00 lates,2AAE bumpE,2AAF PrecedesEqual pre preceq,2AAF+338 ",
  "NotPrecedesEqual npre npreceq,2AB0 SucceedsEqual sce succeq,2AB0+338 NotSucceedsEqual nsce ",
  "nsucceq,2AB3 prE,2AB4 scE,2AB5 precneqq prnE,2AB6 scnE succneqq,2AB7 prap precapprox,2AB8 scap ",
  "succapprox,2AB9 precnapprox prnap,2ABA scnap succnapprox,2ABB Pr,2ABC Sc,2ABD subdot,2ABE ",
  "supdot,2ABF subplus,2AC0 supplus,2AC1 submult,2AC2 supmult,2AC3 subedot,2AC4 supedot,2AC5 subE ",
  "subseteqq,2AC5+338 nsubE nsubseteqq,2AC6 supE supseteqq,2AC6+338 nsupE nsupseteqq,2AC7 subsim,",
  "2AC8 supsim,2ACB subnE subsetneqq,2ACB+FE00 varsubsetneqq vsubnE,2ACC supnE supsetneqq,",
  "2ACC+FE00 varsupsetneqq vsupnE,2ACF csub,2AD0 csup,2AD1 csube,2AD2 csupe,2AD3 subsup,2AD4 ",
  "supsub,2AD5 subsub,2AD6 supsup,2AD7 suphsub,2AD8 supdsub,2AD9 forkv,2ADA topfork,2ADB mlcp,",
  "2AE4 Dashv DoubleLeftTee,2AE6 Vdashl,2AE7 Barv,2AE8 vBar,2AE9 vBarv,2AEB Vbar,2AEC Not,2AED ",
  "bNot,2AEE rnmid,2AEF cirmid,2AF0 midcir,2AF1 topcir,2AF2 nhpar,2AF3 parsim,2AFD parsl,",
  "2AFD+20E5 nparsl,FB00 fflig,FB01 filig,FB02 fllig,FB03 ffilig,FB04 ffllig,1D49C Ascr,1D49E ",
  "Cscr,1D49F Dscr,1D4A2 Gscr,1D4A5 Jscr,1D4A6 Kscr,1D4A9 Nscr,1D4AA Oscr,1D4AB Pscr,1D4AC Qscr,",
  "1D4AE Sscr,1D4AF Tscr,1D4B0 Uscr,1D4B1 Vscr,1D4B2 Wscr,1D4B3 Xscr,1D4B4 Yscr,1D4B5 Zscr,1D4B6 ",
  "ascr,1D4B7 bscr,1D4B8 cscr,1D4B9 dscr,1D4BB fscr,1D4BD hscr,1D4BE iscr,1D4BF jscr,1D4C0 kscr,",
  "1D4C1 lscr,1D4C2 mscr,1D4C3 nscr,1D4C5 pscr,1D4C6 qscr,1D4C7 rscr,1D4C8 sscr,1D4C9 tscr,1D4CA ",
  "uscr,1D4CB vscr,1D4CC wscr,1D4CD xscr,1D4CE yscr,1D4CF zscr,1D504 Afr,1D505 Bfr,1D507 Dfr,",
  "1D508 Efr,1D509 Ffr,1D50A Gfr,1D50D Jfr,1D50E Kfr,1D50F Lfr,1D510 Mfr,1D511 Nfr,1D512 Ofr,",
  "1D513 Pfr,1D514 Qfr,1D516 Sfr,1D517 Tfr,1D518 Ufr,1D519 Vfr,1D51A Wfr,1D51B Xfr,1D51C Yfr,",
  "1D51E afr,1D51F bfr,1D520 cfr,1D521 dfr,1D522 efr,1D523 ffr,1D524 gfr,1D525 hfr,1D526 ifr,",
  "1D527 jfr,1D528 kfr,1D529 lfr,1D52A mfr,1D52B nfr,1D52C ofr,1D52D pfr,1D52E qfr,1D52F rfr,",
  "1D530 sfr,1D531 tfr,1D532 ufr,1D533 vfr,1D534 wfr,1D535 xfr,1D536 yfr,1D537 zfr,1D538 Aopf,",
  "1D539 Bopf,1D53B Dopf,1D53C Eopf,1D53D Fopf,1D53E Gopf,1D540 Iopf,1D541 Jopf,1D542 Kopf,1D543 ",
  "Lopf,1D544 Mopf,1D546 Oopf,1D54A Sopf,1D54B Topf,1D54C Uopf,1D54D Vopf,1D54E Wopf,1D54F Xopf,",
  "1D550 Yopf,1D552 aopf,1D553 bopf,1D554 copf,1D555 dopf,1D556 eopf,1D557 fopf,1D558 gopf,1D559 ",
  "hopf,1D55A iopf,1D55B jopf,1D55C kopf,1D55D lopf,1D55E mopf,1D55F nopf,1D560 oopf,1D561 popf,",
  "1D562 qopf,1D563 ropf,1D564 sopf,1D565 topf,1D566 uopf,1D567 vopf,1D568 wopf,1D569 xopf,1D56A ",
  "yopf,1D56B zopf"]

def hexDigit (c : Char) : Nat :=
  if '0' ≤ c && c ≤ '9' then c.toNat - '0'.toNat
  else if 'a' ≤ c && c ≤ 'f' then c.toNat - 'a'.toNat + 10
  else c.toNat - 'A'.toNat + 10

def charsOfCodes (s : List Char) : List Char :=
  (Text.splitOnChar '+' s).map fun digits =>
    Char.ofNat (digits.foldl (fun n c => 16 * n + hexDigit c) 0)

/-- The name with its semicolon, and without it where it has a star. -/
def spellings (name : List Char) : List (List Char) :=
  if name.getLast? == some '*' then [name.dropLast, name.dropLast ++ [';']] else [name ++ [';']]

/-- The characters of every named reference; the semicolon is part of a name. -/
def entities : List (List Char × List Char) :=
  (Text.splitOnChar ',' entityWords.toList).flatMap fun group =>
    match Text.splitOnChar ' ' group with
    | codes :: names => (names.flatMap spellings).map (·, charsOfCodes codes)
    | [] => []

end MessageCompiler.Markup
