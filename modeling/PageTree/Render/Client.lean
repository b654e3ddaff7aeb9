/-!
# The script of a live page

The script that a page with events or motion carries into the browser. It reads the attributes
that rendering writes, keeps the state, runs effects and plays motion.

## Main definitions

* `clientScript`
-/

namespace PageTree

/-- The lines of the script. -/
def clientLines : List String := [
  "(function () \x7b",
  "  'use strict';",
  "",
  "  var ATTR_ID = 'data-ir-id';",
  "  var ATTR_EVENTS = 'data-ir-events';",
  "  var ATTR_MOTION = 'data-ir-motion';",
  "",
  "  // ---- state -------------------------------------------------------------",
  "",
  "  window.__irState = window.__irState || \x7b\x7d;",
  "",
  "  function getState(key) \x7b",
  "    return key.split('.').reduce(function (o, k) \x7b return o && o[k]; " ++
    "\x7d, window.__irState);",
  "  \x7d",
  "",
  "  function isContainer(obj) \x7b",
  "    return obj !== null && typeof obj === 'object';",
  "  \x7d",
  "",
  "  function setState(key, value) \x7b",
  "    var parts = key.split('.');",
  "    var obj = window.__irState;",
  "    for (var i = 0; i < parts.length - 1; i++) \x7b",
  "      if (!(parts[i] in obj)) obj[parts[i]] = \x7b\x7d;",
  "      obj = obj[parts[i]];",
  "      if (!isContainer(obj)) \x7b",
  "        console.warn('pageir: state write skipped for', key);",
  "        syncDOM();",
  "        return;",
  "      \x7d",
  "    \x7d",
  "    obj[parts[parts.length - 1]] = value;",
  "    syncDOM();",
  "  \x7d",
  "",
  "  // ---- dom sync ----------------------------------------------------------",
  "",
  "  var stateArmed = [];",
  "",
  "  function syncDOM() \x7b",
  "    document.querySelectorAll('[data-ir-bind]').forEach(function (el) \x7b",
  "      var val = getState(el.getAttribute('data-ir-bind'));",
  "      if (val === undefined) return;",
  "      if (el.tagName === 'INPUT' || el.tagName === 'SELECT' || el.tagName === 'TEXTAREA') \x7b",
  "        el.value = val;",
  "      \x7d else \x7b",
  "        el.textContent = String(val);",
  "      \x7d",
  "    \x7d);",
  "",
  "    document.querySelectorAll('[data-ir-show]').forEach(function (el) \x7b",
  "      el.style.display = getState(el.getAttribute('data-ir-show')) ? '' : 'none';",
  "    \x7d);",
  "",
  "    document.querySelectorAll('[' + ATTR_MOTION + ']').forEach(function (el) \x7b",
  "      var spec = readJSON(el, ATTR_MOTION);",
  "      if (!spec || spec.trigger !== 'onState') return;",
  "      var armed = stateArmed.indexOf(el);",
  "      if (spec.stateKey && getState(spec.stateKey)) \x7b",
  "        if (armed === -1) \x7b",
  "          stateArmed.push(el);",
  "          applyMotion(el, spec);",
  "        \x7d",
  "      \x7d else if (armed !== -1) \x7b",
  "        stateArmed.splice(armed, 1);",
  "      \x7d",
  "    \x7d);",
  "  \x7d",
  "",
  "  // ---- conditions --------------------------------------------------------",
  "",
  "  function evaluateConditions(conditions) \x7b",
  "    if (!conditions || conditions.length === 0) return true;",
  "    return conditions.every(function (c) \x7b",
  "      var val = getState(c.key);",
  "      switch (c.op) \x7b",
  "        case 'eq': return val === c.value;",
  "        case 'neq': return val !== c.value;",
  "        case 'gt': return val > c.value;",
  "        case 'lt': return val < c.value;",
  "        case 'gte': return val >= c.value;",
  "        case 'lte': return val <= c.value;",
  "        case 'truthy': return !!val;",
  "        case 'falsy': return !val;",
  "        case 'contains':",
  "          return Array.isArray(val)",
  "            ? val.indexOf(c.value) !== -1",
  "            : String(val).indexOf(String(c.value)) !== -1;",
  "        default: return true;",
  "      \x7d",
  "    \x7d);",
  "  \x7d",
  "",
  "  // ---- effects -----------------------------------------------------------",
  "",
  "  var pendingFetches = [];",
  "",
  "  function byId(id) \x7b",
  "    return id ? document.querySelector('[' + ATTR_ID + '=\"' + id + '\"]') : null;",
  "  \x7d",
  "",
  "  function executeEffect(effect, sourceEl) \x7b",
  "    switch (effect.type) \x7b",
  "      case 'toggleTarget': \x7b",
  "        var target = byId(effect.target);",
  "        if (!target) break;",
  "        if (target.style.display === 'none' || target.hidden) \x7b",
  "          target.style.display = '';",
  "          target.hidden = false;",
  "        \x7d else \x7b",
  "          target.style.display = 'none';",
  "        \x7d",
  "        break;",
  "      \x7d",
  "      case 'setState':",
  "        if (effect.key) setState(effect.key, effect.value);",
  "        break;",
  "      case 'appendStateArray': \x7b",
  "        if (!effect.key) break;",
  "        var arr = getState(effect.key);",
  "        if (!Array.isArray(arr)) arr = [];",
  "        setState(effect.key, arr.concat([effect.value]));",
  "        break;",
  "      \x7d",
  "      case 'fetchJson': \x7b",
  "        if (!effect.url) break;",
  "        var opts = \x7b method: effect.method || 'GET' \x7d;",
  "        if (effect.body && opts.method !== 'GET') \x7b",
  "          opts.headers = \x7b 'Content-Type': 'application/json' \x7d;",
  "          opts.body = JSON.stringify(effect.body);",
  "        \x7d",
  "        pendingFetches.push(\x7b url: effect.url, opts: opts, resultKey: " ++
    "effect.resultKey \x7d);",
  "        break;",
  "      \x7d",
  "      case 'emit':",
  "        document.dispatchEvent(new CustomEvent(effect.event || 'ir:event', " ++
    "\x7b detail: \x7b source: sourceEl \x7d \x7d));",
  "        break;",
  "      case 'runAnimation': \x7b",
  "        var animTarget = effect.target ? byId(effect.target) : sourceEl;",
  "        if (!animTarget || !effect.animation) break;",
  "        var cls = 'ir-animate-' + effect.animation;",
  "        animTarget.classList.add(cls);",
  "        animTarget.addEventListener('animationend', function handler() \x7b",
  "          animTarget.classList.remove(cls);",
  "          animTarget.removeEventListener('animationend', handler);",
  "        \x7d);",
  "        break;",
  "      \x7d",
  "      case 'focus': \x7b",
  "        var focusTarget = effect.selector ? " ++
    "document.querySelector(effect.selector) : byId(effect.target);",
  "        if (focusTarget) focusTarget.focus();",
  "        break;",
  "      \x7d",
  "      case 'toast': \x7b",
  "        var region = document.querySelector('[data-ir-toast-region]') || " ++
    "document.querySelector('.fluent-toast-region');",
  "        if (!region || !effect.message) break;",
  "        var toast = document.createElement('div');",
  "        toast.className = 'ir-toast ir-toast--' + (effect.variant || 'info');",
  "        toast.textContent = effect.message;",
  "        region.appendChild(toast);",
  "        setTimeout(function () \x7b toast.classList.add('ir-toast--show'); \x7d, 10);",
  "        setTimeout(function () \x7b",
  "          toast.classList.remove('ir-toast--show');",
  "          setTimeout(function () \x7b toast.remove(); \x7d, 300);",
  "        \x7d, 3000);",
  "        break;",
  "      \x7d",
  "    \x7d",
  "  \x7d",
  "",
  "  function settleFetches() \x7b",
  "    var jobs = pendingFetches;",
  "    pendingFetches = [];",
  "    jobs.forEach(function (job) \x7b",
  "      fetch(job.url, job.opts)",
  "        .then(function (r) \x7b return r.json(); \x7d)",
  "        .then(function (data) \x7b if (job.resultKey) setState(job.resultKey, data); \x7d)",
  "        .catch(function (err) \x7b console.error('pageir fetchJson error:', err); \x7d);",
  "    \x7d);",
  "  \x7d",
  "",
  "  // ---- event delegation --------------------------------------------------",
  "",
  "  function readJSON(el, attr) \x7b",
  "    try \x7b return JSON.parse(el.getAttribute(attr)); \x7d catch (e) \x7b return null; \x7d",
  "  \x7d",
  "",
  "  function runBindings(target, type) \x7b",
  "    var el = target && target.closest ? target.closest('[' + ATTR_EVENTS + ']') : null;",
  "    if (!el) return;",
  "    var bindings = readJSON(el, ATTR_EVENTS);",
  "    if (!Array.isArray(bindings)) return;",
  "    bindings.forEach(function (binding) \x7b",
  "      if (binding.event !== type) return;",
  "      if (!evaluateConditions(binding.when)) return;",
  "      (binding.do || []).forEach(function (effect) \x7b executeEffect(effect, el); \x7d);",
  "    \x7d);",
  "    settleFetches();",
  "  \x7d",
  "",
  "  function triggerMotion(target, trigger) \x7b",
  "    var el = target && target.closest ? target.closest('[' + ATTR_MOTION + ']') : null;",
  "    if (!el) return;",
  "    var spec = readJSON(el, ATTR_MOTION);",
  "    if (spec && spec.trigger === trigger) applyMotion(el, spec);",
  "  \x7d",
  "",
  "  ['click', 'submit', 'input', 'change', 'focus', 'blur'].forEach(function (type) \x7b",
  "    document.addEventListener(type, function (e) \x7b",
  "      runBindings(e.target, type);",
  "      if (type === 'click') triggerMotion(e.target, 'onPress');",
  "    \x7d, true);",
  "  \x7d);",
  "",
  "  document.addEventListener('mouseenter', function (e) \x7b",
  "    runBindings(e.target, 'hover');",
  "    triggerMotion(e.target, 'onHover');",
  "  \x7d, true);",
  "",
  "  // ---- motion ------------------------------------------------------------",
  "",
  "  function applyMotion(el, spec) \x7b",
  "    if (spec.mode === 'preset') \x7b",
  "      var cls = 'ir-motion-' + spec.preset;",
  "      if (el.classList.contains(cls)) \x7b",
  "        el.classList.remove(cls);",
  "        void el.offsetWidth;",
  "      \x7d",
  "      el.classList.add(cls);",
  "      if (spec.duration) el.style.animationDuration = spec.duration + 'ms';",
  "      if (spec.delay) el.style.animationDelay = spec.delay + 'ms';",
  "      if (spec.easing) el.style.animationTimingFunction = spec.easing;",
  "    \x7d else if (spec.mode === 'keyframes' && el.animate) \x7b",
  "      el.animate(spec.keyframes, \x7b",
  "        duration: spec.duration || 300,",
  "        delay: spec.delay || 0,",
  "        easing: spec.easing || 'ease',",
  "        iterations: spec.iterations === 'infinite' ? Infinity : (spec.iterations || 1),",
  "        fill: spec.fill || 'forwards'",
  "      \x7d);",
  "    \x7d",
  "  \x7d",
  "",
  "  var visibleObserver = typeof IntersectionObserver !== 'undefined'",
  "    ? new IntersectionObserver(function (entries) \x7b",
  "      entries.forEach(function (entry) \x7b",
  "        if (!entry.isIntersecting) return;",
  "        var spec = readJSON(entry.target, ATTR_MOTION);",
  "        if (spec) applyMotion(entry.target, spec);",
  "        visibleObserver.unobserve(entry.target);",
  "      \x7d);",
  "    \x7d, \x7b threshold: 0.1 \x7d)",
  "    : null;",
  "",
  "  document.querySelectorAll('[' + ATTR_MOTION + ']').forEach(function (el) \x7b",
  "    var spec = readJSON(el, ATTR_MOTION);",
  "    if (!spec) return;",
  "    if (!spec.trigger || spec.trigger === 'onMount') \x7b",
  "      applyMotion(el, spec);",
  "    \x7d else if (spec.trigger === 'onVisible' && visibleObserver) \x7b",
  "      visibleObserver.observe(el);",
  "    \x7d",
  "  \x7d);",
  "",
  "  syncDOM();",
  "\x7d)();",
  ""]

/-- The script that a live page carries. -/
def clientScript : String := "\n".intercalate clientLines

end PageTree
